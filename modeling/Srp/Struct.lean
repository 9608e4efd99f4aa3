import Mathlib.Data.Nat.Digits.Lemmas
import Mathlib.Data.List.TakeDrop
import Mathlib.Tactic.Common

/-!
# Fixed-width big-endian record formats

The formats of Python's `struct` module with `!` byte order: unsigned integers of a fixed number of
bytes, most significant first (`B`, `I`, `Q`), and byte strings of a fixed length (`16s`). A format
is a list of fields, and the values that it packs are a tuple with one component for each. `pack`
fails on an integer that does not fit, as `struct.pack` does, and `unpack` on a buffer of another
length. `unpack_pack` and `pack_unpack` are the two round trips, so packing is injective on the
tuples whose byte strings have the format's lengths (`pack_injective`).
-/

namespace Struct

/-! ## Big-endian integers -/

/-- The `width` bytes of `n`, most significant first, for `n < 256^width`. -/
def encode (width n : ℕ) : List UInt8 :=
  ((Nat.digitsAppend 256 width n).map UInt8.ofNat).reverse

/-- The integer that big-endian bytes spell. -/
def decode (bs : List UInt8) : ℕ :=
  Nat.ofDigits 256 (bs.reverse.map UInt8.toNat)

/-- The bytes of a list, read as digits, are among Mathlib's digit lists of base 256. -/
theorem digits_mem (bs : List UInt8) :
    bs.reverse.map UInt8.toNat ∈ {L : List ℕ | L.length = bs.length ∧ ∀ d ∈ L, d < 256} := by
  refine ⟨by simp, fun d hd => ?_⟩
  obtain ⟨b, -, rfl⟩ := List.mem_map.mp hd
  exact b.toNat_lt

/-- An encoding is as long as its width. -/
theorem length_encode {width n : ℕ} (h : n < 256 ^ width) : (encode width n).length = width := by
  simp [encode, Nat.length_digitsAppend (by norm_num : 1 < 256) width h]

/-- An integer that does not fit has more bytes than its width. -/
theorem le_length_encode (width n : ℕ) : width ≤ (encode width n).length := by
  unfold encode Nat.digitsAppend
  rw [List.length_reverse, List.length_map, List.length_append, List.length_replicate]
  omega

/-- Bytes spell an integer that fits in their number. -/
theorem decode_lt (bs : List UInt8) : decode bs < 256 ^ bs.length :=
  Nat.mapsTo_ofDigits (by norm_num) bs.length (digits_mem bs)

/-- Decoding undoes encoding. -/
theorem decode_encode {width n : ℕ} (h : n < 256 ^ width) : decode (encode width n) = n := by
  have hmap : (Nat.digitsAppend 256 width n).map (UInt8.toNat ∘ UInt8.ofNat) =
      Nat.digitsAppend 256 width n := by
    refine List.map_congr_left (g := id) (fun d hd => ?_) |>.trans (List.map_id _)
    exact UInt8.toNat_ofNat_of_lt (Nat.lt_of_mem_digitsAppend (by norm_num) width d hd)
  rw [decode, encode, List.reverse_reverse, List.map_map, hmap]
  exact (Nat.setInvOn_digitsAppend_ofDigits (by norm_num) width).2 h

/-- One byte spells its own value. -/
@[simp]
theorem decode_singleton (b : UInt8) : decode [b] = b.toNat := by
  simp [decode]

/-- Encoding undoes decoding, at the width of the bytes. -/
theorem encode_decode (bs : List UInt8) : encode bs.length (decode bs) = bs := by
  -- The digits of the integer are the bytes that it was read from, padded up to their number.
  have hinv := (Nat.setInvOn_digitsAppend_ofDigits (by norm_num : 1 < 256) bs.length).1
    (digits_mem bs)
  rw [encode, decode, hinv, List.map_map]
  simp [Function.comp_def]

/-- Bytes of one length that hold one number are equal. -/
theorem decode_injective {bs bs' : List UInt8} (hlen : bs.length = bs'.length)
    (h : decode bs = decode bs') : bs = bs' := by
  rw [← encode_decode bs, hlen, h, encode_decode]

/-! ## Fields and formats -/

/-- A field of a format. -/
inductive Field
  /-- An unsigned integer of so many bytes. -/
  | uint (width : ℕ)
  /-- A byte string of a fixed length. -/
  | str (width : ℕ)

namespace Field

/-- What a field holds: any integer or byte string, which may turn out not to fit. -/
abbrev Value : Field → Type
  | uint _ => ℤ
  | str _ => List UInt8

/-- The number of bytes of a field. -/
def width : Field → ℕ
  | uint w => w
  | str w => w

/-- The values that a field holds exactly: integers that fit, and byte strings of its length. -/
def Fits : (f : Field) → f.Value → Prop
  | uint w, n => 0 ≤ n ∧ n < 256 ^ w
  | str w, s => s.length = w

/-- An integer field holds the integers of its width. -/
theorem fits_uint {w : ℕ} {n : ℤ} : (uint w).Fits n ↔ 0 ≤ n ∧ n < 256 ^ w := Iff.rfl

/-- A byte string has its field's length. -/
def StrFits : (f : Field) → f.Value → Prop
  | uint _, _ => True
  | str w, s => s.length = w

/-- A field's bytes. An integer that does not fit fails, and a byte string is padded with zeros or
cut to the field's length. -/
def pack : (f : Field) → f.Value → Option (List UInt8)
  | uint w, n => if 0 ≤ n ∧ n < 256 ^ w then some (encode w n.toNat) else none
  | str w, s => some ((s ++ List.replicate w 0).take w)

/-- What a field's bytes hold. -/
def unpack : (f : Field) → List UInt8 → f.Value
  | uint _, bs => (decode bs : ℤ)
  | str _, bs => bs

/-- A field that packs has its width. -/
theorem length_pack {f : Field} {v : f.Value} {bs : List UInt8} (h : f.pack v = some bs) :
    bs.length = f.width := by
  cases f with
  | uint w =>
    simp only [pack, Option.ite_none_right_eq_some, Option.some.injEq] at h
    obtain ⟨⟨h0, hlt⟩, rfl⟩ := h
    have hn : v.toNat < 256 ^ w := (Int.toNat_lt h0).mpr (by exact_mod_cast hlt)
    exact length_encode hn
  | str w =>
    simp only [pack, Option.some.injEq] at h
    simp [← h, width]

/-- A field packs the integers that fit, so a value that packs is held exactly once its byte string
has the right length. -/
theorem fits_of_pack {f : Field} {v : f.Value} {bs : List UInt8} (hv : f.StrFits v)
    (h : f.pack v = some bs) : f.Fits v := by
  cases f with
  | uint w =>
    simp only [pack, Option.ite_none_right_eq_some] at h
    exact h.1
  | str w => exact hv

/-- A value that a field holds exactly packs. -/
theorem exists_pack {f : Field} {v : f.Value} (h : f.Fits v) : ∃ bs, f.pack v = some bs := by
  cases f with
  | uint w => exact ⟨_, if_pos h⟩
  | str w => exact ⟨_, rfl⟩

/-- Unpacking a field gives back the value that it held exactly. -/
theorem unpack_pack {f : Field} {v : f.Value} {bs : List UInt8} (hv : f.Fits v)
    (h : f.pack v = some bs) : f.unpack bs = v := by
  cases f with
  | uint w =>
    simp only [pack, Option.ite_none_right_eq_some, Option.some.injEq] at h
    obtain ⟨⟨h0, hlt⟩, rfl⟩ := h
    have hn : v.toNat < 256 ^ w := (Int.toNat_lt h0).mpr (by exact_mod_cast hlt)
    simp only [unpack, decode_encode hn]
    exact Int.toNat_of_nonneg h0
  -- At the length of the field nothing is padded or cut.
  | str w =>
    simp only [pack, Option.some.injEq] at h
    have hv : v.length = w := hv
    simp [← h, unpack, ← hv]

/-- Bytes of a field's width hold a value of the field, which packs to them. -/
theorem pack_unpack {f : Field} {bs : List UInt8} (h : bs.length = f.width) :
    f.Fits (f.unpack bs) ∧ f.pack (f.unpack bs) = some bs := by
  cases f with
  | uint w =>
    have hw : bs.length = w := h
    subst hw
    have hlt : (decode bs : ℤ) < 256 ^ bs.length := by exact_mod_cast decode_lt bs
    refine ⟨⟨by simp [unpack], hlt⟩, ?_⟩
    simp [pack, unpack, hlt, encode_decode]
  | str w =>
    have hw : bs.length = w := h
    subst hw
    exact ⟨rfl, by simp [pack, unpack]⟩

end Field

/-- The values of a format: one for each field. -/
abbrev Values : List Field → Type
  | [] => Unit
  | f :: fs => f.Value × Values fs

/-- The number of bytes of a format. -/
def size (fs : List Field) : ℕ := (fs.map Field.width).sum

/-- The values that a format holds exactly. -/
def Fits : (fs : List Field) → Values fs → Prop
  | [], _ => True
  | f :: fs, (v, vs) => f.Fits v ∧ Fits fs vs

/-- The byte strings of a format's values have their fields' lengths. -/
def StrFits : (fs : List Field) → Values fs → Prop
  | [], _ => True
  | f :: fs, (v, vs) => f.StrFits v ∧ StrFits fs vs

/-- The bytes of a format's fields in order, unless an integer does not fit. -/
def pack : (fs : List Field) → Values fs → Option (List UInt8)
  | [], _ => some []
  | f :: fs, (v, vs) => (f.pack v).bind fun b => (pack fs vs).map (b ++ ·)

/-- The values that a buffer's bytes hold, field by field. -/
def fields : (fs : List Field) → List UInt8 → Values fs
  | [], _ => ()
  | f :: fs, bs => (f.unpack (bs.take f.width), fields fs (bs.drop f.width))

/-- The values that a buffer of the format's size holds. -/
def unpack (fs : List Field) (bs : List UInt8) : Option (Values fs) :=
  if bs.length = size fs then some (fields fs bs) else none

/-- A buffer of the format's size unpacks, field by field. -/
theorem unpack_of_length {fs : List Field} {bs : List UInt8} (h : bs.length = size fs) :
    unpack fs bs = some (fields fs bs) :=
  if_pos h

/-- A format packs field by field. -/
theorem pack_cons {f : Field} {fs : List Field} (v : f.Value) (vs : Values fs) :
    pack (f :: fs) (v, vs) = (f.pack v).bind fun b => (pack fs vs).map (b ++ ·) := rfl

/-- The bytes of a field, then those of the other fields. -/
theorem pack_cons_eq_some {f : Field} {fs : List Field} {v : f.Value} {vs : Values fs}
    {bs : List UInt8} :
    pack (f :: fs) (v, vs) = some bs ↔
      ∃ b bs', f.pack v = some b ∧ pack fs vs = some bs' ∧ bs = b ++ bs' := by
  rw [pack_cons, Option.bind_eq_some_iff]
  refine exists_congr fun b => ?_
  rw [Option.map_eq_some_iff, exists_and_left, exists_congr fun _ => and_congr_right' eq_comm]

/-- Values that a format holds exactly pack. -/
theorem exists_pack {fs : List Field} {vs : Values fs} (h : Fits fs vs) : ∃ bs, pack fs vs = some bs := by
  induction fs with
  | nil => exact ⟨[], rfl⟩
  | cons f fs ih =>
    obtain ⟨v, vs⟩ := vs
    obtain ⟨b, hb⟩ := Field.exists_pack h.1
    obtain ⟨bs, hbs⟩ := ih h.2
    exact ⟨b ++ bs, pack_cons_eq_some.mpr ⟨b, bs, hb, hbs, rfl⟩⟩

/-- What packs has the format's size. -/
theorem length_pack {fs : List Field} {vs : Values fs} {bs : List UInt8}
    (h : pack fs vs = some bs) : bs.length = size fs := by
  induction fs generalizing bs with
  | nil => simp_all [pack, size]
  | cons f fs ih =>
    obtain ⟨v, vs⟩ := vs
    obtain ⟨b, bs', hb, hbs', rfl⟩ := pack_cons_eq_some.mp h
    simp [Field.length_pack hb, ih hbs', size]

/-- Values that pack are held exactly, once their byte strings have the right lengths. -/
theorem fits_of_pack {fs : List Field} {vs : Values fs} {bs : List UInt8} (hv : StrFits fs vs)
    (h : pack fs vs = some bs) : Fits fs vs := by
  induction fs generalizing bs with
  | nil => trivial
  | cons f fs ih =>
    obtain ⟨v, vs⟩ := vs
    obtain ⟨b, bs', hb, hbs', -⟩ := pack_cons_eq_some.mp h
    exact ⟨Field.fits_of_pack hv.1 hb, ih hv.2 hbs'⟩

/-- Unpacking gives back the values that were packed, when their byte strings have the right
lengths. -/
theorem unpack_pack {fs : List Field} {vs : Values fs} {bs : List UInt8} (hv : StrFits fs vs)
    (h : pack fs vs = some bs) : unpack fs bs = some vs := by
  rw [unpack_of_length (length_pack h), Option.some.injEq]
  induction fs generalizing bs with
  | nil => rfl
  | cons f fs ih =>
    obtain ⟨v, vs⟩ := vs
    obtain ⟨b, bs', hb, hbs', rfl⟩ := pack_cons_eq_some.mp h
    have hlen := Field.length_pack hb
    rw [fields, List.take_left' hlen, List.drop_left' hlen,
      Field.unpack_pack (Field.fits_of_pack hv.1 hb) hb, ih hv.2 hbs']

/-- A buffer that unpacks holds values of the format, which pack to it. -/
theorem pack_unpack {fs : List Field} {vs : Values fs} {bs : List UInt8}
    (h : unpack fs bs = some vs) : Fits fs vs ∧ pack fs vs = some bs := by
  rw [unpack, Option.ite_none_right_eq_some, Option.some.injEq] at h
  obtain ⟨hlen, rfl⟩ := h
  induction fs generalizing bs with
  | nil => simp_all [Fits, pack, size]
  | cons f fs ih =>
    -- The buffer splits into the bytes of the first field and a buffer of the others.
    have hsize : bs.length = f.width + size fs := by simpa [size] using hlen
    have htake : (bs.take f.width).length = f.width := by simp; omega
    have hdrop : (bs.drop f.width).length = size fs := by simp; omega
    obtain ⟨hf, hp⟩ := Field.pack_unpack htake
    obtain ⟨hfs, hps⟩ := ih hdrop
    refine ⟨⟨hf, hfs⟩, pack_cons_eq_some.mpr ⟨_, _, hp, hps, ?_⟩⟩
    exact (List.take_append_drop _ _).symm

/-- Values whose byte strings have the right lengths are determined by the bytes that they pack
to. -/
theorem pack_injective {fs : List Field} {vs vs' : Values fs} {bs : List UInt8}
    (hv : StrFits fs vs) (hv' : StrFits fs vs') (h : pack fs vs = some bs) (h' : pack fs vs' = some bs) :
    vs = vs' := by
  have hu := unpack_pack hv h
  rwa [unpack_pack hv' h', Option.some.injEq, eq_comm] at hu

/-! ## Where packed values differ -/

/-- A position lies in a field at which two tuples of values differ, if the bytes of the first field begin
at `start`. -/
def DiffersFrom : ℕ → (fs : List Field) → Values fs → Values fs → ℕ → Prop
  | _, [], _, _, _ => False
  | start, f :: fs, (v, vs), (v', vs'), i =>
    (v ≠ v' ∧ start ≤ i ∧ i < start + f.width) ∨ DiffersFrom (start + f.width) fs vs vs' i

/-- What two tuples of values pack to differs only in the fields at which they differ. -/
theorem differsFrom_of_pack {fs : List Field} {vs vs' : Values fs} {bs bs' : List UInt8} {i : ℕ}
    (start : ℕ) (h : pack fs vs = some bs) (h' : pack fs vs' = some bs') (hne : bs[i]? ≠ bs'[i]?) :
    DiffersFrom start fs vs vs' (start + i) := by
  induction fs generalizing start bs bs' i with
  | nil =>
    obtain rfl := Option.some.inj h
    obtain rfl := Option.some.inj h'
    exact hne rfl
  | cons f fs ih =>
    obtain ⟨v, vs⟩ := vs
    obtain ⟨v', vs'⟩ := vs'
    obtain ⟨b, c, hb, hc, rfl⟩ := pack_cons_eq_some.mp h
    obtain ⟨b', c', hb', hc', rfl⟩ := pack_cons_eq_some.mp h'
    have hlen := Field.length_pack hb
    have hlen' := Field.length_pack hb'
    rcases lt_or_ge i f.width with hi | hi
    · refine .inl ⟨fun hv => hne ?_, by omega, by omega⟩
      -- A field's bytes are those of its value.
      rw [hv, hb', Option.some.injEq] at hb
      rw [hb, List.getElem?_append_left (by omega), List.getElem?_append_left (by omega)]
    · rw [List.getElem?_append_right (by omega), List.getElem?_append_right (by omega), hlen, hlen'] at hne
      have hrest := ih (start + f.width) hc hc' hne
      rw [Nat.add_assoc, Nat.add_sub_cancel' hi] at hrest
      exact .inr hrest

end Struct
