import LiebeOS.Lib.Bytes

/-! Segment descriptors of `gdt.c`. A descriptor is given by its base, its limit and
its type, and encoded into the eight bytes that the processor reads. -/
namespace LiebeOS

open Bytes

structure GdtStructured where
  base : UInt32
  limit : UInt32
  type : UInt8

/-- `target[i] = value` -/
def gdtStore (mem : Memory) (target i : Nat) (value : UInt8) : Memory :=
  Function.update mem (target + i) value

/-- `x & 0xFF`, stored into a byte. -/
def lowByte (x : UInt32) : UInt8 := (x &&& 0xFF).toUInt8

/-- The limit below the flags that `target[6]` has already, the base and the type. -/
def encodeGdtFields (mem : Memory) (target : Nat) (source : GdtStructured) (limit : UInt32) :
    Memory :=
  let mem := gdtStore mem target 0 (lowByte limit)
  let mem := gdtStore mem target 1 (lowByte (limit >>> 8))
  let mem := gdtStore mem target 6 (mem (target + 6) ||| ((limit >>> 16) &&& 0x0F).toUInt8)
  let mem := gdtStore mem target 2 (lowByte source.base)
  let mem := gdtStore mem target 3 (lowByte (source.base >>> 8))
  let mem := gdtStore mem target 4 (lowByte (source.base >>> 16))
  let mem := gdtStore mem target 7 (lowByte (source.base >>> 24))
  gdtStore mem target 5 source.type

/-- A limit above 65536 is encoded without its lowest 12 bits, so they have to be set. -/
def GdtStructured.Panics (source : GdtStructured) : Prop :=
  source.limit > 65536 ∧ source.limit &&& 0xFFF ≠ 0xFFF

instance (source : GdtStructured) : Decidable source.Panics := inferInstanceAs (Decidable (_ ∧ _))

/-- `none` when the kernel panics. -/
def encodeGdtEntry (mem : Memory) (target : Nat) (source : GdtStructured) : Option Memory :=
  if source.Panics then none
  else
    let mem := gdtStore mem target 6 0x40
    if source.limit > 65536 then
      some (encodeGdtFields (gdtStore mem target 6 0xc0) target source (source.limit >>> 12))
    else some (encodeGdtFields mem target source source.limit)

/-- The loop of `gdt_structured_to_gdt` at entry `i`. A `struct gdt` has eight bytes. -/
def gdtLoop (gdt : Nat) (structuredGdt : Nat → GdtStructured) : Nat → Nat → Memory → Option Memory
  | 0, _, mem => some mem
  | left + 1, i, mem =>
      match encodeGdtEntry mem (gdt + 8 * i) (structuredGdt i) with
      | none => none
      | some mem => gdtLoop gdt structuredGdt left (i + 1) mem

/-- With a negative number of entries there is nothing to do. -/
def gdtStructuredToGdt (mem : Memory) (gdt : Nat) (structuredGdt : Nat → GdtStructured)
    (totalEntries : Int) : Option Memory :=
  gdtLoop gdt structuredGdt totalEntries.toNat 0 mem

/-! ### What the processor reads -/

def descriptorBase (mem : Memory) (target : Nat) : Nat :=
  (mem (target + 2)).toNat + 256 * (mem (target + 3)).toNat + 65536 * (mem (target + 4)).toNat +
    16777216 * (mem (target + 7)).toNat

def descriptorGranularity (mem : Memory) (target : Nat) : Bool := mem (target + 6) &&& 0x80 != 0

/-- The 20 bits of the limit. -/
def descriptorLimitField (mem : Memory) (target : Nat) : Nat :=
  (mem target).toNat + 256 * (mem (target + 1)).toNat + 65536 * (mem (target + 6) &&& 0x0F).toNat

def descriptorLimit (mem : Memory) (target : Nat) : Nat :=
  if descriptorGranularity mem target then descriptorLimitField mem target <<< 12 ||| 0xFFF
  else descriptorLimitField mem target

/-- The eight bytes at `target` describe the segment. -/
structure Describes (mem : Memory) (target : Nat) (source : GdtStructured) : Prop where
  base : descriptorBase mem target = source.base.toNat
  limit : descriptorLimit mem target = source.limit.toNat
  type : mem (target + 5) = source.type

theorem Describes.congr {mem mem' : Memory} {target : Nat} {source : GdtStructured}
    (h : Describes mem target source) (hSame : ∀ j < 8, mem' (target + j) = mem (target + j)) :
    Describes mem' target source := by
  have hFirst : mem' target = mem target := hSame 0 (by decide)
  obtain ⟨hBase, hLimit, hType⟩ := h
  refine ⟨?_, ?_, ?_⟩
  · rw [← hBase, descriptorBase, descriptorBase, hSame 2 (by decide), hSame 3 (by decide),
      hSame 4 (by decide), hSame 7 (by decide)]
  · rw [← hLimit, descriptorLimit, descriptorLimit, descriptorLimitField, descriptorLimitField,
      descriptorGranularity, descriptorGranularity, hFirst, hSame 1 (by decide),
      hSame 6 (by decide)]
  · rw [hSame 5 (by decide), hType]

/-! ### Bytes of a word -/

theorem lowByte_toNat (x : UInt32) : (lowByte x).toNat = x.toNat % 256 := by
  have hMask := Nat.and_two_pow_sub_one_eq_mod x.toNat 8
  rw [lowByte, UInt32.toNat_toUInt8, UInt32.toNat_and, show (0xFF : UInt32).toNat = 2 ^ 8 - 1 from rfl,
    hMask]
  omega

theorem shiftRight_toNat (x : UInt32) {k : UInt32} (hk : k.toNat < 32) :
    (x >>> k).toNat = x.toNat >>> k.toNat := by
  rw [UInt32.toNat_shiftRight, Nat.mod_eq_of_lt hk]

/-- The four bytes of a word make up the word. -/
theorem lowBytes_sum (x : UInt32) :
    (lowByte x).toNat + 256 * (lowByte (x >>> 8)).toNat + 65536 * (lowByte (x >>> 16)).toNat +
      16777216 * (lowByte (x >>> 24)).toNat = x.toNat := by
  have hLt := x.toNat_lt
  rw [lowByte_toNat, lowByte_toNat, lowByte_toNat, lowByte_toNat, shiftRight_toNat x (by decide),
    shiftRight_toNat x (by decide), shiftRight_toNat x (by decide)]
  rw [show (8 : UInt32).toNat = 8 from rfl, show (16 : UInt32).toNat = 16 from rfl,
    show (24 : UInt32).toNat = 24 from rfl]
  omega

/-- The third byte of a limit of 20 bits. -/
theorem limitNibble_toNat (x : UInt32) :
    (((x >>> 16) &&& 0x0F).toUInt8).toNat = x.toNat / 65536 % 16 := by
  have hMask := Nat.and_two_pow_sub_one_eq_mod (x.toNat / 65536) 4
  rw [UInt32.toNat_toUInt8, UInt32.toNat_and, shiftRight_toNat x (by decide),
    show (16 : UInt32).toNat = 16 from rfl, show (0x0F : UInt32).toNat = 2 ^ 4 - 1 from rfl,
    Nat.shiftRight_eq_div_pow, show 2 ^ 16 = 65536 from rfl, hMask]
  omega

/-- Flags and limit share a byte without disturbing each other. -/
theorem flagsNibble {y : UInt8} (h : y.toNat < 16) :
    ((0x40 ||| y) &&& 0x0F).toNat = y.toNat ∧ ((0xc0 ||| y) &&& 0x0F).toNat = y.toNat ∧
      ((0x40 ||| y) &&& 0x80 != 0) = false ∧ ((0xc0 ||| y) &&& 0x80 != 0) = true := by
  have hAll : ∀ k < 16, ((0x40 ||| UInt8.ofNat k) &&& 0x0F).toNat = (UInt8.ofNat k).toNat ∧
      ((0xc0 ||| UInt8.ofNat k) &&& 0x0F).toNat = (UInt8.ofNat k).toNat ∧
      ((0x40 ||| UInt8.ofNat k) &&& 0x80 != 0) = false ∧
      ((0xc0 ||| UInt8.ofNat k) &&& 0x80 != 0) = true := by decide
  have hSame : UInt8.ofNat y.toNat = y := UInt8.ofNat_toNat
  have hCase := hAll y.toNat h
  rwa [hSame] at hCase

/-! ### One entry -/

section Entry

variable {mem mem' : Memory} {target : Nat} {source : GdtStructured}

theorem gdtStore_self (mem : Memory) (target i : Nat) (value : UInt8) :
    gdtStore mem target i value (target + i) = value := Function.update_self ..

theorem gdtStore_of_ne (mem : Memory) {target i a : Nat} (value : UInt8) (h : a ≠ target + i) :
    gdtStore mem target i value a = mem a := Function.update_of_ne h ..

/-- From `mem` to `mem'` the bytes at `target` have been written, with `limit` as the
limit field, below the flags. -/
structure Encoded (mem mem' : Memory) (target : Nat) (source : GdtStructured) (limit : UInt32)
    (flags : UInt8) : Prop where
  limitLow : mem' target = lowByte limit
  limitHigh : mem' (target + 1) = lowByte (limit >>> 8)
  baseLow : mem' (target + 2) = lowByte source.base
  baseMiddle : mem' (target + 3) = lowByte (source.base >>> 8)
  baseHigh : mem' (target + 4) = lowByte (source.base >>> 16)
  type : mem' (target + 5) = source.type
  flags : mem' (target + 6) = flags ||| ((limit >>> 16) &&& 0x0F).toUInt8
  baseLast : mem' (target + 7) = lowByte (source.base >>> 24)
  others : ∀ a, a < target ∨ target + 8 ≤ a → mem' a = mem a

theorem encodeGdtFields_encoded (mem : Memory) (target : Nat) (source : GdtStructured)
    (limit : UInt32) :
    Encoded mem (encodeGdtFields mem target source limit) target source limit (mem (target + 6)) where
  limitLow := by
    have hByte : encodeGdtFields mem target source limit (target + 0) = lowByte limit := by
      simp (disch := omega) only [encodeGdtFields, gdtStore_of_ne, gdtStore_self]
    exact hByte
  limitHigh := by simp (disch := omega) only [encodeGdtFields, gdtStore_of_ne, gdtStore_self]
  baseLow := by simp (disch := omega) only [encodeGdtFields, gdtStore_of_ne, gdtStore_self]
  baseMiddle := by simp (disch := omega) only [encodeGdtFields, gdtStore_of_ne, gdtStore_self]
  baseHigh := by simp (disch := omega) only [encodeGdtFields, gdtStore_of_ne, gdtStore_self]
  type := by simp only [encodeGdtFields, gdtStore_self]
  flags := by simp (disch := omega) only [encodeGdtFields, gdtStore_of_ne, gdtStore_self]
  baseLast := by simp (disch := omega) only [encodeGdtFields, gdtStore_of_ne, gdtStore_self]
  others a ha := by simp (disch := omega) only [encodeGdtFields, gdtStore_of_ne]

/-- What is written does not depend on what byte 6 was. -/
theorem Encoded.behind_store {mid : Memory} {limit : UInt32} {flags value : UInt8}
    (h : Encoded (gdtStore mem target 6 value) mid target source limit flags) :
    Encoded mem mid target source limit flags :=
  { h with others := fun a ha => (h.others a ha).trans (gdtStore_of_ne mem value (by omega)) }

theorem encodeGdtEntry_returns (mem : Memory) (target : Nat) (h : ¬ source.Panics) :
    ∃ mem', encodeGdtEntry mem target source = some mem' := by
  unfold encodeGdtEntry
  rw [if_neg h]
  split
  · exact ⟨_, rfl⟩
  · exact ⟨_, rfl⟩

/-- An entry is refused, or its eight bytes are written. -/
theorem encodeGdtEntry_encoded (h : encodeGdtEntry mem target source = some mem') :
    (source.limit.toNat ≤ 65536 ∧ Encoded mem mem' target source source.limit 0x40) ∨
      (65536 < source.limit.toNat ∧ source.limit &&& 0xFFF = 0xFFF ∧
        Encoded mem mem' target source (source.limit >>> 12) 0xc0) := by
  unfold encodeGdtEntry at h
  split_ifs at h with hPanic hLarge
  · have hMask : source.limit &&& 0xFFF = 0xFFF := by
      by_contra hOther
      exact hPanic ⟨hLarge, hOther⟩
    obtain rfl := Option.some.inj h
    have hFields := encodeGdtFields_encoded
      (gdtStore (gdtStore mem target 6 0x40) target 6 0xc0) target source (source.limit >>> 12)
    rw [gdtStore_self] at hFields
    exact Or.inr ⟨hLarge, hMask, hFields.behind_store.behind_store⟩
  · obtain rfl := Option.some.inj h
    have hFields := encodeGdtFields_encoded (gdtStore mem target 6 0x40) target source source.limit
    rw [gdtStore_self] at hFields
    exact Or.inl ⟨Nat.not_lt.mp hLarge, hFields.behind_store⟩

theorem Encoded.limitField {limit : UInt32} {flags : UInt8}
    (h : Encoded mem mem' target source limit flags) (hSmall : limit.toNat < 1048576)
    (hFlags : ∀ y : UInt8, y.toNat < 16 → ((flags ||| y) &&& 0x0F).toNat = y.toNat) :
    descriptorLimitField mem' target = limit.toNat := by
  have hNibble := limitNibble_toNat limit
  rw [descriptorLimitField, h.limitLow, h.limitHigh, h.flags, hFlags _ (by omega), hNibble,
    lowByte_toNat, lowByte_toNat, shiftRight_toNat limit (by decide),
    show (8 : UInt32).toNat = 8 from rfl]
  omega

theorem Encoded.base {limit : UInt32} {flags : UInt8}
    (h : Encoded mem mem' target source limit flags) :
    descriptorBase mem' target = source.base.toNat := by
  rw [descriptorBase, h.baseLow, h.baseMiddle, h.baseHigh, h.baseLast]
  exact lowBytes_sum source.base

/-- What the processor reads at `target` is the segment that was given. -/
theorem encodeGdtEntry_describes (h : encodeGdtEntry mem target source = some mem') :
    Describes mem' target source ∧ ∀ a, a < target ∨ target + 8 ≤ a → mem' a = mem a := by
  have hNibble : ∀ limit : UInt32, (((limit >>> 16) &&& 0x0F).toUInt8).toNat < 16 := fun limit => by
    rw [limitNibble_toNat]
    omega
  rcases encodeGdtEntry_encoded h with ⟨hSmall, hEncoded⟩ | ⟨hLarge, hMask, hEncoded⟩
  · refine ⟨⟨hEncoded.base, ?_, hEncoded.type⟩, hEncoded.others⟩
    have hBit : descriptorGranularity mem' target = false := by
      rw [descriptorGranularity, hEncoded.flags]
      exact (flagsNibble (hNibble _)).2.2.1
    rw [descriptorLimit, hBit]
    exact hEncoded.limitField (by omega) fun y hy => (flagsNibble hy).1
  · refine ⟨⟨hEncoded.base, ?_, hEncoded.type⟩, hEncoded.others⟩
    have hBit : descriptorGranularity mem' target = true := by
      rw [descriptorGranularity, hEncoded.flags]
      exact (flagsNibble (hNibble _)).2.2.2
    have hShift : (source.limit >>> 12).toNat = source.limit.toNat / 4096 :=
      (shiftRight_toNat source.limit (by decide)).trans (Nat.shiftRight_eq_div_pow ..)
    have hLow : source.limit.toNat % 4096 = 4095 := by
      have hAnd := congrArg UInt32.toNat hMask
      rw [UInt32.toNat_and, show (0xFFF : UInt32).toNat = 2 ^ 12 - 1 from rfl,
        Nat.and_two_pow_sub_one_eq_mod] at hAnd
      exact hAnd
    have hLt := source.limit.toNat_lt
    have hOr := Nat.two_pow_add_eq_or_of_lt (i := 12) (show 0xFFF < 2 ^ 12 by decide)
      (source.limit.toNat / 4096)
    rw [descriptorLimit, hBit, hEncoded.limitField (by omega) fun y hy => (flagsNibble hy).2.1, hShift,
      if_pos rfl, Nat.shiftLeft_eq, Nat.mul_comm, ← hOr]
    omega

end Entry

/-! ### The whole table -/

/-- Entries are written one after the other, and none of them into another. -/
theorem gdtLoop_describes (gdt : Nat) (structuredGdt : Nat → GdtStructured) (left i : Nat)
    (mem : Memory)
    (hEncodes : ∀ k, i ≤ k → k < i + left → ¬ (structuredGdt k).Panics) :
    ∃ mem', gdtLoop gdt structuredGdt left i mem = some mem' ∧
      (∀ k, i ≤ k → k < i + left → Describes mem' (gdt + 8 * k) (structuredGdt k)) ∧
      ∀ a, a < gdt + 8 * i ∨ gdt + 8 * (i + left) ≤ a → mem' a = mem a := by
  induction left generalizing i mem with
  | zero => exact ⟨mem, rfl, fun k hLow hHigh => by omega, fun _ _ => rfl⟩
  | succ left ih =>
      obtain ⟨mid, hFirst⟩ :=
        encodeGdtEntry_returns mem (gdt + 8 * i) (hEncodes i (Nat.le_refl i) (by omega))
      obtain ⟨hDescribes, hOthers⟩ := encodeGdtEntry_describes hFirst
      obtain ⟨mem', hRest, hBehind, hKept⟩ :=
        ih (i + 1) mid fun k hLow hHigh => hEncodes k (by omega) (by omega)
      rw [gdtLoop, hFirst]
      refine ⟨mem', hRest, fun k hLow hHigh => ?_, fun a ha => ?_⟩
      · by_cases hSame : k = i
        · subst hSame
          exact hDescribes.congr fun j hj => hKept _ (by omega)
        · exact hBehind k (by omega) (by omega)
      · rw [hKept a (by omega)]
        exact hOthers a (by omega)

/-- Whatever the bytes were before, each entry that does not panic is read back as the
segment that was given, and in a table of such entries all of them are. -/
theorem gdtStructuredToGdt_describes {structuredGdt : Nat → GdtStructured} {totalEntries : Int}
    (hEncodes : ∀ i : Nat, i < totalEntries → ¬ (structuredGdt i).Panics) (mem : Memory)
    (gdt : Nat) :
    (∀ i : Nat, i < totalEntries → ∃ mem',
      encodeGdtEntry mem gdt (structuredGdt i) = some mem' ∧
        Describes mem' gdt (structuredGdt i) ∧ ∀ a, a < gdt ∨ gdt + 8 ≤ a → mem' a = mem a) ∧
    ∃ mem', gdtStructuredToGdt mem gdt structuredGdt totalEntries = some mem' ∧
      (∀ i : Nat, i < totalEntries → Describes mem' (gdt + 8 * i) (structuredGdt i)) ∧
      ∀ a, a < gdt ∨ gdt + 8 * totalEntries.toNat ≤ a → mem' a = mem a := by
  constructor
  · intro i hi
    obtain ⟨mem', hEntry⟩ := encodeGdtEntry_returns mem gdt (hEncodes i hi)
    exact ⟨mem', hEntry, encodeGdtEntry_describes hEntry⟩
  · obtain ⟨mem', hLoop, hDescribes, hKept⟩ := gdtLoop_describes gdt structuredGdt totalEntries.toNat
      0 mem fun k _ hHigh => hEncodes k (by omega)
    exact ⟨mem', hLoop, fun i hi => hDescribes i (Nat.zero_le i) (by omega),
      fun a ha => hKept a (by omega)⟩

/-- The segments of `kernel.c`, with the task segment at `tss`. -/
def gdtStructured (tss : UInt32) (i : Nat) : GdtStructured :=
  [⟨0, 0, 0⟩, ⟨0, 0xffffffff, 0x9a⟩, ⟨0, 0xffffffff, 0x92⟩, ⟨0, 0xffffffff, 0xf8⟩,
    ⟨0, 0xffffffff, 0xf2⟩, ⟨tss, 104, 0xE9⟩].getD i ⟨0, 0, 0⟩

/-- The kernel's table over bytes that were set before, with the task segment at `0x120000`. -/
theorem gdtStructuredToGdt_describes_kernel :
    ∃ mem', gdtStructuredToGdt (fun _ => 0xFF) 0 (gdtStructured 0x120000) 6 = some mem' ∧
      ∀ i : Nat, (i : Int) < 6 → Describes mem' (0 + 8 * i) (gdtStructured 0x120000 i) := by
  have hEncodes : ∀ i : Nat, (i : Int) < 6 → ¬ (gdtStructured 0x120000 i).Panics := fun i hi => by
    have hAll : ∀ k < 6, ¬ (gdtStructured 0x120000 k).Panics := by decide
    exact hAll i (by omega)
  obtain ⟨_, mem', hReturned, hDescribes, _⟩ :=
    gdtStructuredToGdt_describes hEncodes (fun _ => 0xFF) 0
  exact ⟨mem', hReturned, hDescribes⟩

end LiebeOS
