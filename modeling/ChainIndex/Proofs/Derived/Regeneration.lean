import ChainIndex.Proofs.Derived.Invalidation
import ChainIndex.Proofs.Store.Lasting

/-!
# What the decoder can make again

A row that was decoded is founded if the decoder can make it again: under its key stand an internal
transaction that the row's owner sent, and a marker.  Tables are `Founded` if all their module transactions
and states of safes are.  Whatever keeps the frames and adds no decoded row keeps tables founded
(`Founded.mono`), and so do the steps of an invalidation (`Founded.takeBack`).

Deletion looks at the owner that a row names, and marking at the sender of the internal transaction.  Of
founded tables these are the same, so that whatever an invalidation deletes waits for the decoder
afterwards (`Invalidated.regenerates`).
-/

namespace ChainIndex.Derived

open Text (lower)

/-- The owners disregard the case of letters. -/
def Owners.IgnoreCase (owners : Owners) : Prop :=
  ∀ {a b : String}, lower a = lower b → owners (some a) = owners (some b)

theorem Owners.ignoreCase_all : all.IgnoreCase := fun _ => rfl

theorem Owners.ignoreCase_among (addresses : List String) : (among addresses).IgnoreCase := by
  intro a b heq
  rw [Bool.eq_iff_iff, among_some, among_some, heq]

namespace Tables

/-- A marker and an internal transaction that the owner sent stand under a key. -/
def Founds (d : Tables) (key : FrameKey) (owner : String) : Prop :=
  (d.markers.get? key).isSome = true ∧
    ∃ t, d.internalTxs.get? key = some t ∧ lower t.sender = lower owner

/-- Every module transaction and every state of a safe stands under its own key and is founded. -/
structure Founded (d : Tables) : Prop where
  moduleTx : ∀ {key row}, d.moduleTxs.get? key = some row →
    row.internalTx = key ∧ d.Founds row.internalTx row.safe
  safeStatus : ∀ {key row}, d.safeStatuses.get? key = some row →
    row.internalTx = key ∧ d.Founds row.internalTx row.address

variable {d d' : Tables} {key : FrameKey} {owner : String}

theorem founded_empty : Founded {} := ⟨nofun, nofun⟩

theorem Founds.mono (h : d.Founds key owner) (hd : d.FramesLast d') : d'.Founds key owner := by
  obtain ⟨hmarker, t, ht, hsender⟩ := h
  obtain ⟨mk, hmk⟩ := Option.isSome_iff_exists.1 hmarker
  obtain ⟨mk', hmk', -⟩ := hd.marker hmk
  exact ⟨Option.isSome_iff_exists.2 ⟨mk', hmk'⟩, t, hd.internalTx ht, hsender⟩

theorem Founded.mono (h : d.Founded) (hd : d.FramesLast d')
    (hmodule : ∀ {key row}, d'.moduleTxs.get? key = some row → d.moduleTxs.get? key = some row)
    (hstatus : ∀ {key row}, d'.safeStatuses.get? key = some row → d.safeStatuses.get? key = some row) :
    d'.Founded where
  moduleTx hrow := (h.moduleTx (hmodule hrow)).imp_right (·.mono hd)
  safeStatus hrow := (h.safeStatus (hstatus hrow)).imp_right (·.mono hd)

theorem Founded.putModuleTx (h : d.Founded) {row : ModuleTx} (hrow : d.Founds row.internalTx row.safe) :
    (d.putModuleTx row).Founded where
  moduleTx {key row'} hget := by
    rw [Tables.putModuleTx, Table.get?_insert] at hget
    split at hget
    · rename_i heq
      cases hget
      exact ⟨heq.symm, hrow⟩
    · exact h.moduleTx hget
  safeStatus := h.safeStatus

theorem Founded.putSafeStatus (h : d.Founded) {row : SafeStatus}
    (hrow : d.Founds row.internalTx row.address) : (d.putSafeStatus row).Founded where
  moduleTx := h.moduleTx
  safeStatus {key row'} hget := by
    rw [Tables.putSafeStatus, Table.get?_insert] at hget
    split at hget
    · rename_i heq
      cases hget
      exact ⟨heq.symm, hrow⟩
    · exact h.safeStatus hget

/-! ## Invalidation -/

theorem sameFrames_takeBack (owners : Owners) (step : Invalidation) (d : Tables) :
    d.SameFrames (takeBack owners step d).2 := by
  cases step with
  | markers => exact .resetMarkers d _
  | _ => exact ⟨rfl, fun _ => rfl⟩

/-- A step of an invalidation keeps tables founded. -/
theorem Founded.takeBack (h : d.Founded) (owners : Owners) (step : Invalidation) :
    (takeBack owners step d).2.Founded := by
  refine h.mono (.of_sameFrames (sameFrames_takeBack owners step d)) (fun hrow => ?_) fun hrow => ?_
  · cases step with
    | moduleTxs => exact Table.get?_of_deleteWhere hrow
    | _ => exact hrow
  · cases step with
    | safeStatuses => exact Table.get?_of_deleteWhere hrow
    | _ => exact hrow

/-- Every marker names the key that it stands under. -/
def MarkersKeyed (d : Tables) : Prop := ∀ {key mk}, d.markers.get? key = some mk → mk.key = key

/-- A marker that names a key waits for the decoder. -/
def Awaits (d : Tables) (key : FrameKey) : Prop := ∃ mk ∈ d.pendingMarkers, mk.key = key

/-- What was deleted waits for the decoder, what waited still does, and nothing else does that belongs to
other owners. -/
structure Regenerates (owners : Owners) (d d' : Tables) : Prop where
  moduleTx : ∀ row ∈ d.moduleTxs.values, row ∉ d'.moduleTxs.values → d'.Awaits row.internalTx
  safeStatus : ∀ row ∈ d.safeStatuses.values, row ∉ d'.safeStatuses.values → d'.Awaits row.internalTx
  pending : ∀ mk ∈ d.pendingMarkers, mk ∈ d'.pendingMarkers
  requeued : ∀ mk ∈ d'.pendingMarkers, mk ∈ d.pendingMarkers ∨ owners (d.markerOwner mk.key) = true

theorem Regenerates.refl (owners : Owners) (d : Tables) : d.Regenerates owners d :=
  ⟨fun _ hrow hnot => absurd hrow hnot, fun _ hrow hnot => absurd hrow hnot, fun _ hmk => hmk,
    fun _ hmk => .inl hmk⟩

theorem mem_pendingMarkers {mk : Marker} :
    mk ∈ d.pendingMarkers ↔ (∃ key, d.markers.get? key = some mk) ∧ mk.processed = false := by
  rw [pendingMarkers, List.mem_filter, Table.mem_values, Bool.not_eq_true']

variable {owners : Owners} {summary : Summary}

/-- The marker of a row that an invalidation deletes waits for the decoder. -/
theorem Invalidated.awaits (h : d.Invalidated owners summary d') (hcase : owners.IgnoreCase)
    (hkeyed : d.MarkersKeyed) (hfounds : d.Founds key owner) (howner : owners (some owner) = true) :
    d'.Awaits key := by
  obtain ⟨hmarker, t, ht, hsender⟩ := hfounds
  obtain ⟨mk, hmk⟩ := Option.isSome_iff_exists.1 hmarker
  have hmine : owners (d.markerOwner key) = true := by
    rw [markerOwner, ht, Option.map_some, hcase hsender, howner]
  have hget : d'.markers.get? key = some { mk with processed := false } := by
    rw [h.markers.get?, hmk, Option.map_some, if_pos hmine]
  have hkey : mk.key = key := hkeyed hmk
  exact ⟨_, mem_pendingMarkers.2 ⟨⟨key, hget⟩, rfl⟩, hkey⟩

/-- Nothing is deleted from founded tables that will not be made again, and nobody else's markers are
touched. -/
theorem Invalidated.regenerates (h : d.Invalidated owners summary d') (hcase : owners.IgnoreCase)
    (hkeyed : d.MarkersKeyed) (hd : d.Founded) : d.Regenerates owners d' where
  moduleTx row hrow hgone := by
    obtain ⟨key, hget⟩ := Table.mem_values.1 hrow
    obtain ⟨-, hfounds⟩ := hd.moduleTx hget
    refine h.awaits hcase hkeyed hfounds ?_
    by_contra hother
    have hkept := h.moduleTxs.get?_iff.2 ⟨hget, Bool.not_eq_true _ ▸ hother⟩
    exact hgone (Table.mem_values.2 ⟨key, hkept⟩)
  safeStatus row hrow hgone := by
    obtain ⟨key, hget⟩ := Table.mem_values.1 hrow
    obtain ⟨-, hfounds⟩ := hd.safeStatus hget
    refine h.awaits hcase hkeyed hfounds ?_
    by_contra hother
    have hkept := h.safeStatuses.get?_iff.2 ⟨hget, Bool.not_eq_true _ ▸ hother⟩
    exact hgone (Table.mem_values.2 ⟨key, hkept⟩)
  pending mk hmk := by
    obtain ⟨⟨key, hget⟩, hwaits⟩ := mem_pendingMarkers.1 hmk
    -- Setting back a marker that waits makes no difference to it.
    have hset : { mk with processed := false } = mk := by rw [← hwaits]
    refine mem_pendingMarkers.2 ⟨⟨key, ?_⟩, hwaits⟩
    rw [h.markers.get?, hget, Option.map_some, hset, ite_self]
  requeued mk hmk := by
    obtain ⟨⟨key, hget⟩, hwaits⟩ := mem_pendingMarkers.1 hmk
    rw [h.markers.get?, Option.map_eq_some_iff] at hget
    obtain ⟨old, hold, heq⟩ := hget
    split at heq
    · rename_i hmine
      subst heq
      exact .inr (by rw [hkeyed hold]; exact hmine)
    · subst heq
      exact .inl (mem_pendingMarkers.2 ⟨⟨key, hold⟩, hwaits⟩)

end Tables

end ChainIndex.Derived
