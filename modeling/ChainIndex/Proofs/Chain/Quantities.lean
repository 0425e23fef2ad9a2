import ChainIndex.Proofs.Chain.Reading
import ChainIndex.Proofs.Text.Numeral

/-!
# The quantities of decoded objects

A quantity of 64 bits is decoded as the number that it names, and one that is no number of 64 bits spoils its
object (`faithful_decoders`); a value is decoded exactly if it has no such quantity and lacks no text
(`Block.isSome_decode?`).  Of an index that does not fit 32 bits, and of a time that does not fit 63, it is
only said that the object has one.

An amount of wei is shown in decimal as long as it has up to 128 bits; a larger one stays as it is
(`large_amount_kept`).
-/

namespace ChainIndex

namespace Json

variable {v : Json}

/-- The value is a text that names the number. -/
def Names (v : Json) (n : Nat) : Prop := ∃ s, v = .str s ∧ Quantity.Names s n

/-- The value names a number of 64 bits. -/
def NamesWord (v : Json) : Prop := ∃ n < 2 ^ 64, v.Names n

/-- The value names a number of 64 bits, and the integer is that number if it is below the limit. -/
def Carries (v : Json) (limit : Nat) (x : Int) : Prop := ∃ n < 2 ^ 64, v.Names n ∧ (n < limit → x = n)

/-- There is an integer if the value is not null, and the value carries it. -/
def MayCarry (v : Json) (limit : Nat) : Option Int → Prop
  | none => v = .null
  | some x => v.Carries limit x

/-- The value carries the integer, or it is null and the integer zero. -/
def CarriesOrZero (v : Json) (limit : Nat) (x : Int) : Prop := v = .null ∧ x = 0 ∨ v.Carries limit x

/-- How an amount of wei is shown, whatever is done with what is no quantity: in decimal if it has up to 128
bits and as it is if it has more.  No digits at all stand for zero. -/
structure ShowsWei (v : Json) (text : Option String) : Prop where
  decimal : ∀ n < 2 ^ 128, v.Names n → text = some (toString n)
  kept : ∀ s, ∀ n ≥ 2 ^ 128, v = .str s → Quantity.Names s n → text = some s
  bare : v = .str "" ∨ v = .str "0x" → text = some "0"

/-- A text that is rewritten in decimal is shown as an amount of wei. -/
theorem showsWei_of_toDecimal {text : Option String}
    (h : ∀ s, v = .str s → text = some (Quantity.toDecimal s)) : v.ShowsWei text where
  decimal n hlt hn := by
    obtain ⟨s, hs, hn⟩ := hn
    rw [h s hs, Quantity.toDecimal_of_names hn hlt]
  kept s n hle hs hn := by rw [h s hs, Quantity.toDecimal_of_large hn hle]
  bare hbare := by
    rcases hbare with hs | hs
    · rw [h _ hs]
      rfl
    · rw [h _ hs]
      rfl

end Json

namespace Chain

variable {v : Json}

/-! ## Reading a quantity -/

theorem requiredQuantity?_eq_some_iff {w : UInt64} : requiredQuantity? v = some w ↔ v.Names w.toNat := by
  rw [requiredQuantity?, Option.bind_eq_bind, Option.bind_eq_some_iff]
  simp only [str?_eq_some_iff, Quantity.parse?_eq_some_iff]
  rfl

theorem isSome_requiredQuantity? : (requiredQuantity? v).isSome ↔ v.NamesWord := by
  rw [Option.isSome_iff_exists]
  constructor
  · rintro ⟨w, hw⟩
    exact ⟨w.toNat, w.toNat_lt, requiredQuantity?_eq_some_iff.1 hw⟩
  · rintro ⟨n, hlt, hn⟩
    exact ⟨.ofNat n, requiredQuantity?_eq_some_iff.2 (by rwa [UInt64.toNat_ofNat_of_lt' hlt])⟩

theorem quantity?_eq_some_iff {o : Option UInt64} :
    quantity? v = some o ↔ v = .null ∧ o = none ∨ ∃ w, o = some w ∧ v.Names w.toNat := by
  cases v with
  | null => simp [quantity?, Json.Names, eq_comm]
  | str s =>
    rw [quantity?, Option.map_eq_some_iff]
    simp only [Quantity.parse?_eq_some_iff]
    constructor
    · rintro ⟨w, hw, rfl⟩
      exact .inr ⟨w, rfl, s, rfl, hw⟩
    · rintro (⟨h, -⟩ | ⟨w, rfl, _, hs, hw⟩)
      · cases h
      · cases hs
        exact ⟨w, hw, rfl⟩
  | _ => simp [quantity?, Json.Names]

theorem isSome_quantity? : (quantity? v).isSome ↔ v = .null ∨ v.NamesWord := by
  cases v with
  | null => simp [quantity?]
  | str s =>
    rw [quantity?, Option.isSome_map, ← isSome_requiredQuantity?]
    simp [requiredQuantity?, Json.str?]
  | _ => simp [quantity?, Json.NamesWord, Json.Names]

/-- The integer of a field is that of the word it is made from, if the word is below the limit. -/
def Keeps (limit : Nat) (field : UInt64 → Int) : Prop := ∀ w, w.toNat < limit → field w = w.toNat

theorem keeps_toNat (limit : Nat) : Keeps limit fun w => w.toNat := fun _ _ => rfl

theorem keeps_toUInt32 : Keeps (2 ^ 32) fun w => w.toUInt32.toNat := fun w h => by
  dsimp only
  rw [UInt64.toNat_toUInt32, Nat.mod_eq_of_lt h]

theorem keeps_toInt64 : Keeps (2 ^ 63) fun w => w.toInt64.toInt := fun w h => by
  dsimp only
  rw [← UInt64.ofNat_toNat (x := w), UInt64.toInt64_ofNat', Int64.toInt_ofNat_of_lt h,
    UInt64.ofNat_toNat]

section

variable {limit : Nat} {field : UInt64 → Int} (hkeeps : Keeps limit field)

include hkeeps

theorem carries_of_names {w : UInt64} (h : v.Names w.toNat) : v.Carries limit (field w) :=
  ⟨w.toNat, w.toNat_lt, h, hkeeps w⟩

theorem mayCarry_of_quantity {o : Option UInt64} (h : quantity? v = some o) :
    v.MayCarry limit (o.map field) := by
  rcases quantity?_eq_some_iff.1 h with ⟨hnull, rfl⟩ | ⟨w, rfl, hw⟩
  · exact hnull
  · exact carries_of_names hkeeps hw

theorem carriesOrZero_of_quantity (hpos : 0 < limit) {o : Option UInt64} (h : quantity? v = some o) :
    v.CarriesOrZero limit (field (o.getD 0)) := by
  rcases quantity?_eq_some_iff.1 h with ⟨hnull, rfl⟩ | ⟨w, rfl, hw⟩
  · exact .inl ⟨hnull, hkeeps 0 hpos⟩
  · exact .inr (carries_of_names hkeeps hw)

end

/-! ## The quantities of an object -/

/-- The quantities of a block are those of the value that it was decoded from. -/
structure Block.Shows (b : Block) (v : Json) : Prop where
  number : (v.get "number").Carries (2 ^ 64) b.number.toNat
  timestamp : (v.get "timestamp").Carries (2 ^ 63) b.timestamp.toInt

structure Transaction.Shows (t : Transaction) (v : Json) : Prop where
  blockNumber : (v.get "blockNumber").MayCarry (2 ^ 64) (t.blockNumber.map fun n => n.toNat)
  transactionIndex : (v.get "transactionIndex").MayCarry (2 ^ 32) (t.transactionIndex.map fun n => n.toNat)
  gas : (v.get "gas").CarriesOrZero (2 ^ 64) t.gas.toNat
  nonce : (v.get "nonce").CarriesOrZero (2 ^ 64) t.nonce.toNat
  value : (v.get "value").ShowsWei (some t.value)
  gasPrice : (v.get "gasPrice").ShowsWei t.gasPrice

structure Log.Shows (l : Log) (v : Json) : Prop where
  blockNumber : (v.get "blockNumber").Carries (2 ^ 64) l.blockNumber.toNat
  logIndex : (v.get "logIndex").CarriesOrZero (2 ^ 32) l.logIndex.toNat

structure Receipt.Shows (r : Receipt) (v : Json) : Prop where
  blockNumber : (v.get "blockNumber").MayCarry (2 ^ 64) (r.blockNumber.map fun n => n.toNat)
  gasUsed : (v.get "gasUsed").CarriesOrZero (2 ^ 64) r.gasUsed.toNat
  status : (v.get "status").MayCarry (2 ^ 64) (r.status.map fun n => n.toNat)
  effectiveGasPrice : (v.get "effectiveGasPrice").ShowsWei r.effectiveGasPrice
  logs : List.Forall₂ (fun item l => l.Shows item) (Receipt.logItems v) r.logs

/-- What should be quantities of a block are numbers of 64 bits. -/
def Block.WellFormed (v : Json) : Prop := ∀ name ∈ ["number", "timestamp"], (v.get name).NamesWord

def Transaction.WellFormed (v : Json) : Prop :=
  ∀ name ∈ ["blockNumber", "transactionIndex", "gas", "nonce"], v.get name = .null ∨ (v.get name).NamesWord

def Log.WellFormed (v : Json) : Prop :=
  (v.get "blockNumber").NamesWord ∧ (v.get "logIndex" = .null ∨ (v.get "logIndex").NamesWord)

def Receipt.WellFormed (v : Json) : Prop :=
  (∀ name ∈ ["blockNumber", "gasUsed", "status"], v.get name = .null ∨ (v.get name).NamesWord) ∧
  ∀ item ∈ Receipt.logItems v, Log.WellFormed item

theorem Block.shows_of_decode {b : Block} (h : Block.decode? v = some b) : b.Shows v := by
  obtain ⟨hnumber, -, -, htime⟩ := Block.decode?_eq_some_iff.1 h
  obtain ⟨time, htime, heq⟩ := Option.map_eq_some_iff.1 htime
  refine ⟨carries_of_names (keeps_toNat _) (requiredQuantity?_eq_some_iff.1 hnumber), ?_⟩
  rw [← heq]
  exact carries_of_names keeps_toInt64 (requiredQuantity?_eq_some_iff.1 htime)

theorem Transaction.shows_of_decode {t : Transaction} (h : Transaction.decode? v = some t) : t.Shows v := by
  obtain ⟨-, -, hnumber, hindex, hgas, hnonce, -, -, hvalue, hprice, -⟩ := Transaction.decode?_eq_some_iff.1 h
  obtain ⟨index, hindex, htrunc⟩ := Option.map_eq_some_iff.1 hindex
  obtain ⟨gas, hgas, hg⟩ := Option.map_eq_some_iff.1 hgas
  obtain ⟨nonce, hnonce, hn⟩ := Option.map_eq_some_iff.1 hnonce
  refine ⟨mayCarry_of_quantity (keeps_toNat _) hnumber, ?_, ?_, ?_, ?_, ?_⟩
  · rw [← htrunc, Option.map_map]
    exact mayCarry_of_quantity keeps_toUInt32 hindex
  · rw [← hg]
    exact carriesOrZero_of_quantity (keeps_toNat _) (by decide) hgas
  · rw [← hn]
    exact carriesOrZero_of_quantity (keeps_toNat _) (by decide) hnonce
  · rw [← hvalue]
    exact Json.showsWei_of_toDecimal fun s hs => by rw [hs]; rfl
  · rw [← hprice]
    exact Json.showsWei_of_toDecimal fun s hs => by rw [hs]; rfl

theorem Log.shows_of_decode {l : Log} (h : Log.decode? v = some l) : l.Shows v := by
  obtain ⟨-, -, hnumber, -, -, hindex, -, -⟩ := Log.decode?_eq_some_iff.1 h
  obtain ⟨index, hindex, htrunc⟩ := Option.map_eq_some_iff.1 hindex
  refine ⟨carries_of_names (keeps_toNat _) (requiredQuantity?_eq_some_iff.1 hnumber), ?_⟩
  rw [← htrunc]
  exact carriesOrZero_of_quantity keeps_toUInt32 (by decide) hindex

theorem Receipt.shows_of_decode {r : Receipt} (h : Receipt.decode? v = some r) : r.Shows v := by
  obtain ⟨hlogs, -, hnumber, hgas, hstatus, -, hprice⟩ := Receipt.decode?_eq_some_iff.1 h
  obtain ⟨gas, hgas, hg⟩ := Option.map_eq_some_iff.1 hgas
  refine ⟨mayCarry_of_quantity (keeps_toNat _) hnumber, ?_, mayCarry_of_quantity (keeps_toNat _) hstatus, ?_,
    hlogs.imp fun _ _ => Log.shows_of_decode⟩
  · rw [← hg]
    exact carriesOrZero_of_quantity (keeps_toNat _) (by decide) hgas
  · rw [← hprice]
    exact Json.showsWei_of_toDecimal fun s hs => by rw [hs]; rfl

/-! ## What is decoded -/

/-- A value is decoded as a block exactly if it names two hashes and its quantities are well-formed. -/
theorem Block.isSome_decode? : (Block.decode? v).isSome ↔
    (v.get "hash").str?.isSome ∧ (v.get "parentHash").str?.isSome ∧ Block.WellFormed v := by
  simp only [Block.WellFormed, List.mem_cons, List.not_mem_nil, or_false, forall_eq_or_imp, forall_eq,
    ← isSome_requiredQuantity?, Option.isSome_iff_exists, Block.decode?_eq_some_iff, Option.map_eq_some_iff]
  constructor
  · rintro ⟨b, hnumber, hhash, hparent, time, htime, -⟩
    exact ⟨⟨_, hhash⟩, ⟨_, hparent⟩, ⟨_, hnumber⟩, ⟨time, htime⟩⟩
  · rintro ⟨⟨hash, hhash⟩, ⟨parent, hparent⟩, ⟨number, hnumber⟩, ⟨time, htime⟩⟩
    exact ⟨⟨number, hash, parent, _⟩, hnumber, hhash, hparent, time, htime, rfl⟩

theorem Transaction.isSome_decode? : (Transaction.decode? v).isSome ↔
    (v.get "hash").str?.isSome ∧ (v.get "from").str?.isSome ∧ Transaction.WellFormed v := by
  simp only [Transaction.WellFormed, List.mem_cons, List.not_mem_nil, or_false, forall_eq_or_imp, forall_eq,
    ← isSome_quantity?, Option.isSome_iff_exists, Transaction.decode?_eq_some_iff, Option.map_eq_some_iff]
  constructor
  · rintro ⟨t, hhash, hsender, hnumber, ⟨index, hindex, -⟩, ⟨gas, hgas, -⟩, ⟨nonce, hnonce, -⟩, -⟩
    exact ⟨⟨_, hhash⟩, ⟨_, hsender⟩, ⟨_, hnumber⟩, ⟨index, hindex⟩, ⟨gas, hgas⟩, ⟨nonce, hnonce⟩⟩
  · rintro ⟨⟨hash, hhash⟩, ⟨sender, hsender⟩, ⟨number, hnumber⟩, ⟨index, hindex⟩, ⟨gas, hgas⟩,
      ⟨nonce, hnonce⟩⟩
    exact ⟨⟨hash, _, number, _, sender, _, _, _, _, _, _⟩, hhash, hsender, hnumber, ⟨index, hindex, rfl⟩,
      ⟨gas, hgas, rfl⟩, ⟨nonce, hnonce, rfl⟩, rfl, rfl, rfl, rfl, rfl⟩

theorem Log.isSome_decode? : (Log.decode? v).isSome ↔
    (v.get "address").str?.isSome ∧ (v.get "topics").arr?.isSome ∧ (v.get "blockHash").str?.isSome ∧
    (v.get "transactionHash").str?.isSome ∧ Log.WellFormed v := by
  rw [Log.WellFormed, ← isSome_quantity?, ← isSome_requiredQuantity?]
  simp only [Option.isSome_iff_exists, Log.decode?_eq_some_iff, Option.map_eq_some_iff]
  constructor
  · rintro ⟨l, haddress, ⟨topics, htopics, -⟩, hnumber, hblock, htx, ⟨index, hindex, -⟩, -⟩
    exact ⟨⟨_, haddress⟩, ⟨topics, htopics⟩, ⟨_, hblock⟩, ⟨_, htx⟩, ⟨_, hnumber⟩, ⟨index, hindex⟩⟩
  · rintro ⟨⟨address, haddress⟩, ⟨topics, htopics⟩, ⟨block, hblock⟩, ⟨tx, htx⟩, ⟨number, hnumber⟩,
      ⟨index, hindex⟩⟩
    exact ⟨⟨address, _, _, number, block, tx, _, _⟩, haddress, ⟨topics, htopics, rfl⟩, hnumber, hblock, htx,
      ⟨index, hindex, rfl⟩, rfl, rfl⟩

theorem Receipt.isSome_decode? : (Receipt.decode? v).isSome ↔
    (v.get "transactionHash").str?.isSome ∧ (∀ item ∈ Receipt.logItems v, (Log.decode? item).isSome) ∧
    ∀ name ∈ ["blockNumber", "gasUsed", "status"], v.get name = .null ∨ (v.get name).NamesWord := by
  simp only [List.mem_cons, List.not_mem_nil, or_false, forall_eq_or_imp, forall_eq, ← isSome_quantity?,
    Option.isSome_iff_exists, Receipt.decode?_eq_some_iff, Option.map_eq_some_iff]
  constructor
  · rintro ⟨r, hlogs, htx, hnumber, ⟨gas, hgas, -⟩, hstatus, -⟩
    refine ⟨⟨_, htx⟩, fun item hitem => ?_, ⟨_, hnumber⟩, ⟨gas, hgas⟩, ⟨_, hstatus⟩⟩
    obtain ⟨l, -, hl⟩ := exists_of_mem_left hlogs hitem
    exact ⟨l, hl⟩
  · rintro ⟨⟨tx, htx⟩, hlogs, ⟨number, hnumber⟩, ⟨gas, hgas⟩, ⟨status, hstatus⟩⟩
    obtain ⟨logs, hlogs⟩ := exists_forall₂ hlogs
    exact ⟨⟨tx, _, number, _, _, status, logs⟩, hlogs, htx, hnumber, ⟨gas, hgas, rfl⟩, hstatus, rfl, rfl⟩

theorem Receipt.wellFormed_of_decode (h : (Receipt.decode? v).isSome) : Receipt.WellFormed v := by
  obtain ⟨-, hlogs, hquantities⟩ := Receipt.isSome_decode?.1 h
  refine ⟨hquantities, fun item hitem => ?_⟩
  obtain ⟨-, -, -, -, hlog⟩ := Log.isSome_decode?.1 (hlogs item hitem)
  exact hlog

/-! ## Faithful decoders -/

/-- What is decoded shows the quantities of its value; a value that has a malformed one is not decoded. -/
structure Faithful {α : Type} (decode? : Json → Option α) (Shows : α → Json → Prop)
    (WellFormed : Json → Prop) : Prop where
  shows : ∀ {v a}, decode? v = some a → Shows a v
  rejects : ∀ {v}, ¬ WellFormed v → decode? v = none

theorem Faithful.of_wellFormed {α : Type} {decode? : Json → Option α} {Shows : α → Json → Prop}
    {WellFormed : Json → Prop} (hshows : ∀ {v a}, decode? v = some a → Shows a v)
    (hwell : ∀ {v}, (decode? v).isSome → WellFormed v) : Faithful decode? Shows WellFormed :=
  ⟨hshows, fun hbad => Option.not_isSome_iff_eq_none.1 fun hsome => hbad (hwell hsome)⟩

/-- Whatever value a node answers, each decoded object shows its quantities, and none has a malformed one. -/
theorem faithful_decoders :
    Faithful Block.decode? Block.Shows Block.WellFormed ∧
    Faithful Transaction.decode? Transaction.Shows Transaction.WellFormed ∧
    Faithful Log.decode? Log.Shows Log.WellFormed ∧
    Faithful Receipt.decode? Receipt.Shows Receipt.WellFormed :=
  ⟨.of_wellFormed Block.shows_of_decode fun h => (Block.isSome_decode?.1 h).2.2,
    .of_wellFormed Transaction.shows_of_decode fun h => (Transaction.isSome_decode?.1 h).2.2,
    .of_wellFormed Log.shows_of_decode fun h => (Log.isSome_decode?.1 h).2.2.2.2,
    .of_wellFormed Receipt.shows_of_decode Receipt.wellFormed_of_decode⟩

namespace Sample

/-- A transaction as a node answers it, with the amount of wei that it sends. -/
def sending (amount : String) : Json :=
  .obj [("from", .str "0x01"), ("hash", .str "0xaa"), ("nonce", .str "0x9"), ("value", .str amount)]

/-- The transaction that it is decoded as, with the amount as it is shown. -/
def sent (amount : String) : Transaction where
  hash := "0xaa"
  blockHash := none
  blockNumber := none
  transactionIndex := none
  sender := "0x01"
  recipient := none
  value := amount
  gas := 0
  gasPrice := none
  nonce := 9
  input := "0x"

/-- A block with a number of 65 bits. -/
def wideBlock : Json := .obj [
  ("hash", .str "0xb7"), ("number", .str "0x10000000000000000"), ("parentHash", .str "0xb6"),
  ("timestamp", .str "0x7")]

end Sample

open Sample in
theorem faithful_decoders_sample :
    Transaction.decode? (sending "0x10") = some (sent "16") ∧ (sent "16").Shows (sending "0x10") ∧
    ¬ Block.WellFormed wideBlock ∧ Block.decode? wideBlock = none := by
  have hdecode : Transaction.decode? (sending "0x10") = some (sent "16") := by decide +kernel
  have hwide : ¬ (wideBlock.get "number").NamesWord := by
    rw [← isSome_requiredQuantity?]
    decide +kernel
  have hbad : ¬ Block.WellFormed wideBlock := fun hwell => hwide (hwell "number" (by simp))
  exact ⟨hdecode, faithful_decoders.2.1.shows hdecode, hbad, faithful_decoders.1.rejects hbad⟩

/-- An amount of wei that does not fit 128 bits is shown as it was told, not in decimal. -/
theorem large_amount_kept :
    Quantity.Names "0x100000000000000000000000000000000" (2 ^ 128) ∧
    Transaction.decode? (Sample.sending "0x100000000000000000000000000000000") =
      some (Sample.sent "0x100000000000000000000000000000000") ∧
    (Sample.sent "0x100000000000000000000000000000000").value ≠ toString (2 ^ 128) :=
  ⟨Quantity.names_of_value? (by decide : 0 < 2 ^ 129) (by decide +kernel), by decide +kernel,
    by decide +kernel⟩

end Chain

end ChainIndex
