import EscapeFlow.Flow.Leaks
import Mathlib.Data.List.DropRight
import Mathlib.Data.List.GetD
import Mathlib.Data.List.Forall2
import Mathlib.Data.Set.Function

/-!
# The written form of leaks

Leaks are written as `esc:` and bytes of two digits, without the empty slots at the end.  The texts
that come about so are the canonical ones, and each of them is read back as the leaks it was made
of:

    decode l.encode = .ok l                                                     (decode_encode)
    Canonical s → ∃ l, decode s = .ok l ∧ l.encode = s                      (exists_of_canonical)

Reading takes more: digits of either case, empty slots at the end, and a plus sign in place of the
first digit of a byte (`decode_eq_ok_iff`, `hexText_iff`).  Whatever else the text is, it is
refused as malformed.
-/

namespace EscapeFlow.Leaks

/-! ## Texts -/

/-- The digits of base sixteen in lower case, each at its value. -/
def lowerDigits : List Char :=
  ['0', '1', '2', '3', '4', '5', '6', '7', '8', '9', 'a', 'b', 'c', 'd', 'e', 'f']

def upperDigits : List Char :=
  ['0', '1', '2', '3', '4', '5', '6', '7', '8', '9', 'A', 'B', 'C', 'D', 'E', 'F']

/-- The value of a digit of either case. -/
def hexValue? (c : Char) : Option Nat := (lowerDigits.idxOf? c).or (upperDigits.idxOf? c)

/-- The characters of some pairs, one after the other. -/
def pairChars (ps : List (Char × Char)) : List Char := ps.flatMap fun p => [p.1, p.2]

/-- The text with the given pairs of characters for bytes. -/
def written (ps : List (Char × Char)) : String := String.ofList (headChars ++ pairChars ps)

/-- At most eight bytes of two lower-case digits, of which the last is not zero. -/
def Canonical (s : String) : Prop :=
  ∃ ps, s = written ps ∧ ps.length ≤ 8 ∧ (∀ p ∈ ps, p.1 ∈ lowerDigits ∧ p.2 ∈ lowerDigits) ∧
    ps.getLast? ≠ some ('0', '0')

/-- At most eight bytes of two digits of either case. -/
def HexText (s : String) : Prop :=
  ∃ ps, s = written ps ∧ ps.length ≤ 8 ∧
    ∀ p ∈ ps, (hexValue? p.1).isSome = true ∧ (hexValue? p.2).isSome = true

/-- What a pair of characters is read as. -/
inductive ReadAs : Char × Char → Nat → Prop
  | digits {c d : Char} {hi lo : Nat} (high : hexValue? c = some hi) (low : hexValue? d = some lo) :
    ReadAs (c, d) (16 * hi + lo)
  | plus {d : Char} {lo : Nat} (low : hexValue? d = some lo) : ReadAs ('+', d) lo

/-! ## Digits -/

theorem hexValue?_of_lt : ∀ n < 128, digitValue? (Char.ofNat n) = hexValue? (Char.ofNat n) ∧
    ∀ v ∈ hexValue? (Char.ofNat n), v < 16 ∧ (Char.ofNat n).utf8Size = 1 ∧ Char.ofNat n ≠ '+' := by
  decide +kernel

/-- No digit is beyond the ASCII characters. -/
theorem hexValue?_of_le {c : Char} (h : 128 ≤ c.toNat) :
    digitValue? c = none ∧ hexValue? c = none := by
  have hascii : (lowerDigits ++ upperDigits).all (·.toNat < 128) = true := by decide
  have hout : c ∉ lowerDigits ++ upperDigits := fun hc => by
    have := of_decide_eq_true (List.all_eq_true.1 hascii c hc)
    omega
  rw [List.mem_append, not_or] at hout
  have hle : ∀ d : Char, d.toNat < 128 → ¬ c ≤ d := fun d hd hcd => by
    have : c.toNat ≤ d.toNat := hcd
    omega
  constructor
  · unfold digitValue?
    rw [if_neg fun hc => hle '9' (by decide) hc.2, if_neg fun hc => hle 'f' (by decide) hc.2,
      if_neg fun hc => hle 'F' (by decide) hc.2]
  · unfold hexValue?
    rw [List.idxOf?_eq_none_iff.2 hout.1, List.idxOf?_eq_none_iff.2 hout.2]
    rfl

theorem digitValue?_eq (c : Char) : digitValue? c = hexValue? c := by
  rcases Nat.lt_or_ge c.toNat 128 with hc | hc
  · have := (hexValue?_of_lt c.toNat hc).1
    rwa [Char.ofNat_toNat] at this
  · rw [(hexValue?_of_le hc).1, (hexValue?_of_le hc).2]

theorem of_hexValue? {c : Char} {v : Nat} (h : hexValue? c = some v) :
    v < 16 ∧ c.utf8Size = 1 ∧ c ≠ '+' := by
  rcases Nat.lt_or_ge c.toNat 128 with hc | hc
  · have := (hexValue?_of_lt c.toNat hc).2 v
    rw [Char.ofNat_toNat] at this
    exact this h
  · rw [(hexValue?_of_le hc).2] at h
    cases h

theorem hexValue?_digitChar : ∀ v < 16, Nat.digitChar v ∈ lowerDigits ∧
    hexValue? (Nat.digitChar v) = some v := by
  decide

theorem hexValue?_of_mem_lower {c : Char} (h : c ∈ lowerDigits) : ∃ v < 16,
    hexValue? c = some v ∧ Nat.digitChar v = c := by
  have hdigits : lowerDigits = (List.range 16).map Nat.digitChar := by decide
  rw [hdigits] at h
  obtain ⟨v, hv, rfl⟩ := List.mem_map.1 h
  rw [List.mem_range] at hv
  exact ⟨v, hv, (hexValue?_digitChar v hv).2, rfl⟩

/-! ## Bytes -/

theorem byte?_eq_some_iff {c d : Char} {b : Nat} : byte? c d = some b ↔ ReadAs (c, d) b := by
  unfold byte?
  constructor
  · intro h
    split at h
    · next hc =>
      subst hc
      rw [digitValue?_eq] at h
      exact .plus h
    · rw [digitValue?_eq, digitValue?_eq] at h
      obtain ⟨hi, hhi, h⟩ := Option.bind_eq_some_iff.1 h
      obtain ⟨lo, hlo, h⟩ := Option.bind_eq_some_iff.1 h
      cases h
      exact .digits hhi hlo
  · rintro (⟨hhi, hlo⟩ | hlo)
    · rw [if_neg (of_hexValue? hhi).2.2, digitValue?_eq, digitValue?_eq, hhi, hlo]
      rfl
    · rw [if_pos rfl, digitValue?_eq, hlo]

theorem ReadAs.lt {p : Char × Char} {b : Nat} (h : ReadAs p b) : b < 256 := by
  cases h with
  | digits high low =>
    have := (of_hexValue? high).1
    have := (of_hexValue? low).1
    omega
  | plus low =>
    have := (of_hexValue? low).1
    omega

theorem ReadAs.utf8Size {p : Char × Char} {b : Nat} (h : ReadAs p b) :
    p.1.utf8Size = 1 ∧ p.2.utf8Size = 1 := by
  cases h with
  | digits high low => exact ⟨(of_hexValue? high).2.1, (of_hexValue? low).2.1⟩
  | plus low => exact ⟨rfl, (of_hexValue? low).2.1⟩

/-- A text is read byte by byte. -/
theorem readBytes_eq_ok_iff {i : Nat} {cs : List Char} {bs : List Nat} :
    readBytes i cs = .ok bs ↔ ∃ ps, cs = pairChars ps ∧ List.Forall₂ ReadAs ps bs := by
  constructor
  · fun_induction readBytes i cs generalizing bs with
    | case1 i =>
      intro h
      cases h
      exact ⟨[], rfl, .nil⟩
    | case2 => exact nofun
    | case3 => exact nofun
    | case4 i hi lo rest b hb ih =>
      intro h
      cases hrest : readBytes (i + 1) rest with
      | error j =>
        rw [hrest] at h
        cases h
      | ok bs' =>
        rw [hrest] at h
        cases h
        obtain ⟨ps, rfl, hps⟩ := ih hrest
        exact ⟨(hi, lo) :: ps, rfl, .cons (byte?_eq_some_iff.1 hb) hps⟩
  · rintro ⟨ps, rfl, hps⟩
    induction hps generalizing i with
    | nil => rfl
    | @cons p b ps bs hp _ ih =>
      show readBytes i (p.1 :: p.2 :: pairChars ps) = .ok (b :: bs)
      rw [readBytes, byte?_eq_some_iff.2 hp, ih]
      rfl

theorem lt_of_readAs {ps : List (Char × Char)} {bs : List Nat} (h : List.Forall₂ ReadAs ps bs) :
    ∀ b ∈ bs, b < 256 := by
  induction h with
  | nil => exact nofun
  | cons hp _ ih => exact List.forall_mem_cons.2 ⟨hp.lt, ih⟩

theorem encodedSize_pairChars {ps : List (Char × Char)} {bs : List Nat}
    (h : List.Forall₂ ReadAs ps bs) : encodedSize (pairChars ps) = 2 * ps.length := by
  unfold encodedSize
  induction h with
  | nil => rfl
  | @cons p b ps bs hp _ ih =>
    show p.1.utf8Size + (p.2.utf8Size + total Char.utf8Size (pairChars ps)) = _
    rw [hp.utf8Size.1, hp.utf8Size.2, ih, List.length_cons]
    omega

/-! ## Slots -/

theorem slotByte_lt (x : Option Depth) : slotByte x < 256 := by
  cases x with
  | none => exact Nat.zero_lt_succ _
  | some d =>
    show d.val + 1 < 256
    omega

theorem slotOfByte_slotByte (x : Option Depth) : slotOfByte (slotByte x) = x := by
  cases x with
  | none => rfl
  | some d =>
    unfold slotOfByte slotByte
    rw [dif_pos ⟨Nat.succ_pos _, slotByte_lt (some d)⟩]
    rfl

theorem slotByte_slotOfByte {b : Nat} (h : b < 256) : slotByte (slotOfByte b) = b := by
  unfold slotOfByte
  split
  · next hb => exact Nat.sub_add_cancel hb.1
  · next hb => exact (Nat.eq_zero_of_not_pos fun hpos => hb ⟨hpos, h⟩).symm

/-- The slots are those of the bytes, and empty behind them. -/
theorem eq_ofBytes_iff {l : Leaks} {bs : List Nat} (h : ∀ b ∈ bs, b < 256) :
    l = ofBytes bs ↔ ∀ i : Fin 8, slotByte (l.slots.get i) = bs.getD i 0 := by
  have hlt : ∀ i : Nat, bs.getD i 0 < 256 := fun i => by
    rw [List.getD_eq_getElem?_getD]
    cases hi : bs[i]? with
    | none => exact Nat.zero_lt_succ _
    | some b => exact h b (List.mem_of_getElem? hi)
  have hget : ∀ i : Fin 8, (ofBytes bs).slots.get i = slotOfByte (bs.getD i 0) := fun i => by
    unfold ofBytes
    exact Vector.getElem_ofFn _
  constructor
  · rintro rfl i
    rw [hget, slotByte_slotOfByte (hlt i)]
  · intro hl
    obtain ⟨slots⟩ := l
    refine congrArg Leaks.mk (Vector.ext fun i hi => ?_)
    have hi' := hget ⟨i, hi⟩
    rw [← hl ⟨i, hi⟩, slotOfByte_slotByte] at hi'
    exact hi'.symm

theorem decode_eq_ok_iff {s : String} {l : Leaks} :
    decode s = .ok l ↔
      ∃ ps bs, s = written ps ∧ ps.length ≤ 8 ∧ List.Forall₂ ReadAs ps bs ∧ l = ofBytes bs := by
  constructor
  · intro h
    unfold decode at h
    split at h
    · next digits hs =>
      split at h
      · cases h
      · next hsize =>
        split at h
        · cases h
        · next bs hbs =>
          cases h
          obtain ⟨ps, rfl, hps⟩ := readBytes_eq_ok_iff.1 hbs
          rw [encodedSize_pairChars hps] at hsize
          refine ⟨ps, bs, ?_, by omega, hps, rfl⟩
          rw [← String.ofList_toList (s := s), hs]
          rfl
    · cases h
  · rintro ⟨ps, bs, rfl, hlen, hps, rfl⟩
    have hchars : (written ps).toList = 'e' :: 's' :: 'c' :: ':' :: pairChars ps :=
      String.toList_ofList
    have hsize : ¬ (encodedSize (pairChars ps) % 2 ≠ 0 ∨ 8 < encodedSize (pairChars ps) / 2) := by
      rw [encodedSize_pairChars hps]
      omega
    unfold decode
    rw [hchars]
    refine (if_neg hsize).trans ?_
    rw [readBytes_eq_ok_iff.2 ⟨ps, rfl, hps⟩]

/-- A text that is not read is malformed. -/
theorem exists_malformed {s : String} (h : ¬ ∃ l, decode s = .ok l) :
    ∃ fault, decode s = .error (.malformedSummary fault) := by
  have hcases : (∃ l, decode s = .ok l) ∨ ∃ fault, decode s = .error (.malformedSummary fault) := by
    unfold decode
    split
    · split
      · exact .inr ⟨_, rfl⟩
      · split
        · exact .inr ⟨_, rfl⟩
        · exact .inl ⟨_, rfl⟩
    · exact .inr ⟨_, rfl⟩
  exact hcases.resolve_left h

/-! ## What is written -/

theorem bytes_eq_rdropWhile (l : Leaks) :
    l.bytes = (l.slots.toList.map slotByte).rdropWhile (· == 0) := rfl

/-- Zeros at the end do not matter. -/
theorem getD_rdropWhile (xs : List Nat) (i : Nat) :
    (xs.rdropWhile (· == 0)).getD i 0 = xs.getD i 0 := by
  induction xs using List.reverseRecOn with
  | nil => rfl
  | append_singleton xs x ih =>
    rw [List.rdropWhile_concat]
    split
    · next hx =>
      rw [ih, eq_of_beq hx]
      rcases Nat.lt_or_ge i xs.length with hi | hi
      · rw [List.getD_append _ _ _ _ hi]
      · rw [List.getD_append_right _ _ _ _ hi, List.getD_eq_default _ _ hi]
        cases i - xs.length <;> rfl
    · rfl

theorem lt_of_mem_bytes {l : Leaks} {b : Nat} (h : b ∈ l.bytes) : b < 256 := by
  rw [bytes_eq_rdropWhile] at h
  obtain ⟨x, -, rfl⟩ := List.mem_map.1 ((List.rdropWhile_prefix _ _).subset h)
  exact slotByte_lt x

/-- The bytes that are left out are those of empty slots. -/
theorem ofBytes_bytes (l : Leaks) : ofBytes l.bytes = l := by
  refine ((eq_ofBytes_iff fun b => lt_of_mem_bytes).2 fun i => ?_).symm
  have hi : l.slots.toList[i.val]? = some (l.slots.get i) :=
    Vector.getElem?_toList.trans (Vector.getElem?_eq_getElem i.isLt)
  rw [bytes_eq_rdropWhile, getD_rdropWhile, List.getD_eq_getElem?_getD, List.getElem?_map, hi]
  rfl

theorem map_slotByte_ofBytes {bs : List Nat} (hlen : bs.length ≤ 8) (hlt : ∀ b ∈ bs, b < 256) :
    (ofBytes bs).slots.toList.map slotByte = bs ++ List.replicate (8 - bs.length) 0 := by
  have hslots := (eq_ofBytes_iff hlt).1 rfl
  refine List.ext_getElem (by simp; omega) fun i h₁ h₂ => ?_
  have hi : i < 8 := by simpa using h₁
  have heq := hslots ⟨i, hi⟩
  rw [List.getElem_map, Vector.getElem_toList]
  refine heq.trans ?_
  rw [List.getElem_append]
  split
  · next hlt => exact List.getD_eq_getElem _ _ hlt
  · next hge => rw [List.getElem_replicate, List.getD_eq_default _ _ (Nat.le_of_not_lt hge)]

theorem bytes_ofBytes {bs : List Nat} (hlen : bs.length ≤ 8) (hlt : ∀ b ∈ bs, b < 256)
    (hlast : bs.getLast? ≠ some 0) : (ofBytes bs).bytes = bs := by
  rw [bytes_eq_rdropWhile, map_slotByte_ofBytes hlen hlt]
  generalize 8 - bs.length = n
  induction n with
  | zero =>
    rw [List.replicate_zero, List.append_nil, List.rdropWhile_eq_self_iff]
    intro hne hzero
    rw [List.getLast?_eq_some_getLast hne] at hlast
    exact hlast (congrArg some (eq_of_beq hzero))
  | succ n ih =>
    rw [List.replicate_succ', ← List.append_assoc, List.rdropWhile_concat_pos _ _ _ rfl, ih]

/-- The two digits of a byte. -/
def digitPair (b : Nat) : Char × Char := (Nat.digitChar (b / 16), Nat.digitChar (b % 16))

theorem encode_eq_written (l : Leaks) : l.encode = written (l.bytes.map digitPair) := by
  unfold encode written pairChars
  rw [List.flatMap_map]
  rfl

theorem readAs_digitPair {b : Nat} (h : b < 256) : ReadAs (digitPair b) b := by
  have hhi := (hexValue?_digitChar (b / 16) (by omega)).2
  have hlo := (hexValue?_digitChar (b % 16) (by omega)).2
  have hread := ReadAs.digits hhi hlo
  rwa [Nat.div_add_mod] at hread

/-- Lower-case digits are the digits of the byte they are read as. -/
theorem exists_readAs_of_lower {p : Char × Char} (h : p.1 ∈ lowerDigits ∧ p.2 ∈ lowerDigits) :
    ∃ b, ReadAs p b ∧ digitPair b = p := by
  obtain ⟨hi, -, hhi, hhi'⟩ := hexValue?_of_mem_lower h.1
  obtain ⟨lo, hlt, hlo, hlo'⟩ := hexValue?_of_mem_lower h.2
  refine ⟨16 * hi + lo, .digits hhi hlo, Prod.ext ?_ ?_⟩
  · show Nat.digitChar ((16 * hi + lo) / 16) = p.1
    rw [← hhi']
    congr 1
    omega
  · show Nat.digitChar ((16 * hi + lo) % 16) = p.2
    rw [← hlo']
    congr 1
    omega

theorem length_bytes_le (l : Leaks) : l.bytes.length ≤ 8 := by
  rw [bytes_eq_rdropWhile]
  refine (List.rdropWhile_prefix _ _).length_le.trans ?_
  simp

theorem getLast?_bytes (l : Leaks) : l.bytes.getLast? ≠ some 0 := by
  intro h
  have hne : l.bytes ≠ [] := fun hnil => by
    rw [hnil] at h
    cases h
  rw [List.getLast?_eq_some_getLast hne] at h
  refine List.rdropWhile_last_not (· == 0) (l.slots.toList.map slotByte) hne ?_
  exact beq_iff_eq.2 (Option.some.inj h)

theorem decode_encode (l : Leaks) : decode l.encode = .ok l := by
  rw [decode_eq_ok_iff]
  refine ⟨l.bytes.map digitPair, l.bytes, l.encode_eq_written, ?_, ?_, l.ofBytes_bytes.symm⟩
  · rw [List.length_map]
    exact l.length_bytes_le
  · rw [List.forall₂_map_left_iff, List.forall₂_same]
    exact fun b hb => readAs_digitPair (lt_of_mem_bytes hb)

theorem canonical_encode (l : Leaks) : Canonical l.encode := by
  refine ⟨l.bytes.map digitPair, l.encode_eq_written, ?_, ?_, ?_⟩
  · rw [List.length_map]
    exact l.length_bytes_le
  · intro p hp
    obtain ⟨b, hb, rfl⟩ := List.mem_map.1 hp
    have hlt := lt_of_mem_bytes hb
    exact ⟨(hexValue?_digitChar (b / 16) (by omega)).1, (hexValue?_digitChar (b % 16) (by omega)).1⟩
  · intro hlast
    rw [List.getLast?_map] at hlast
    obtain ⟨b, hb, hzero⟩ := Option.map_eq_some_iff.1 hlast
    have hread := readAs_digitPair (lt_of_mem_bytes (List.mem_of_getLast? hb))
    rw [hzero, ← byte?_eq_some_iff] at hread
    obtain rfl : 0 = b := Option.some.inj hread
    exact l.getLast?_bytes hb

/-- A canonical text is what its leaks are written as. -/
theorem exists_of_canonical {s : String} (h : Canonical s) :
    ∃ l, decode s = .ok l ∧ l.encode = s := by
  obtain ⟨ps, rfl, hlen, hdigits, hlast⟩ := h
  obtain ⟨bs, hread, rfl⟩ : ∃ bs, List.Forall₂ ReadAs ps bs ∧ bs.map digitPair = ps := by
    clear hlen hlast
    induction ps with
    | nil => exact ⟨[], .nil, rfl⟩
    | cons p ps ih =>
      obtain ⟨b, hb, hp⟩ := exists_readAs_of_lower (hdigits p List.mem_cons_self)
      obtain ⟨bs, hbs, hps⟩ := ih fun q hq => hdigits q (List.mem_cons_of_mem _ hq)
      exact ⟨b :: bs, .cons hb hbs, by rw [List.map_cons, hp, hps]⟩
  refine ⟨ofBytes bs, decode_eq_ok_iff.2 ⟨_, bs, rfl, hlen, hread, rfl⟩, ?_⟩
  rw [encode_eq_written, bytes_ofBytes (by simpa using hlen) (lt_of_readAs hread)]
  intro h
  rw [List.getLast?_map, h] at hlast
  exact hlast rfl

/-- Leaks and canonical texts stand for each other. -/
theorem encode_bijOn :
    (∀ l : Leaks, decode l.encode = .ok l) ∧ (∀ l : Leaks, Canonical l.encode) ∧
      (∀ s, Canonical s → ∃ l, decode s = .ok l ∧ l.encode = s) ∧
      Set.BijOn encode Set.univ {s | Canonical s} := by
  refine ⟨decode_encode, canonical_encode, fun s => exists_of_canonical, ?_, ?_, ?_⟩
  · exact fun l _ => canonical_encode l
  · intro l _ k _ heq
    have hk := decode_encode k
    rw [← heq, decode_encode] at hk
    exact Except.ok.inj hk
  · intro s hs
    obtain ⟨l, -, hl⟩ := exists_of_canonical hs
    exact ⟨l, trivial, hl⟩

/-- An empty slot between two others is written, and read back. -/
theorem encode_bijOn_gap :
    Canonical "esc:02000001" ∧ ∃ l, decode "esc:02000001" = .ok l ∧ l.encode = "esc:02000001" := by
  have hcanonical : Canonical "esc:02000001" :=
    ⟨[('0', '2'), ('0', '0'), ('0', '0'), ('0', '1')], by decide, by decide, by decide, by decide⟩
  exact ⟨hcanonical, encode_bijOn.2.2.1 _ hcanonical⟩

/-! ## What is read -/

/-- Two digits are what is read as a byte without a plus sign. -/
theorem isSome_hexValue?_iff {p : Char × Char} :
    ((hexValue? p.1).isSome = true ∧ (hexValue? p.2).isSome = true) ↔
      (∃ b, ReadAs p b) ∧ p.1 ≠ '+' ∧ p.2 ≠ '+' := by
  constructor
  · rintro ⟨hhi, hlo⟩
    obtain ⟨hi, hhi⟩ := Option.isSome_iff_exists.1 hhi
    obtain ⟨lo, hlo⟩ := Option.isSome_iff_exists.1 hlo
    exact ⟨⟨_, .digits hhi hlo⟩, (of_hexValue? hhi).2.2, (of_hexValue? hlo).2.2⟩
  · rintro ⟨⟨b, hb⟩, hplus, -⟩
    cases hb with
    | digits high low => exact ⟨Option.isSome_of_eq_some high, Option.isSome_of_eq_some low⟩
    | plus => exact absurd rfl hplus

theorem exists_readAs_iff {ps : List (Char × Char)} :
    (∃ bs, List.Forall₂ ReadAs ps bs) ↔ ∀ p ∈ ps, ∃ b, ReadAs p b := by
  constructor
  · rintro ⟨bs, h⟩
    induction h with
    | nil => exact nofun
    | cons hp _ ih => exact List.forall_mem_cons.2 ⟨⟨_, hp⟩, ih⟩
  · intro h
    induction ps with
    | nil => exact ⟨[], .nil⟩
    | cons p ps ih =>
      obtain ⟨⟨b, hb⟩, hps⟩ := List.forall_mem_cons.1 h
      obtain ⟨bs, hbs⟩ := ih hps
      exact ⟨b :: bs, .cons hb hbs⟩

theorem plus_mem_written {ps : List (Char × Char)} :
    '+' ∈ (written ps).toList ↔ ∃ p ∈ ps, p.1 = '+' ∨ p.2 = '+' := by
  unfold written pairChars
  rw [String.toList_ofList, List.mem_append, List.mem_flatMap]
  constructor
  · rintro (h | ⟨p, hp, h⟩)
    · exact absurd h (by decide)
    · simp only [List.mem_cons, List.not_mem_nil, or_false] at h
      exact ⟨p, hp, h.imp Eq.symm Eq.symm⟩
  · rintro ⟨p, hp, h⟩
    refine .inr ⟨p, hp, ?_⟩
    simp only [List.mem_cons, List.not_mem_nil, or_false]
    exact h.imp Eq.symm Eq.symm

/-- The texts of digits are those that are read and hold no plus sign. -/
theorem hexText_iff {s : String} :
    HexText s ↔ (∃ l, decode s = .ok l) ∧ '+' ∉ s.toList := by
  constructor
  · rintro ⟨ps, rfl, hlen, hps⟩
    have hread : ∀ p ∈ ps, (∃ b, ReadAs p b) ∧ p.1 ≠ '+' ∧ p.2 ≠ '+' :=
      fun p hp => isSome_hexValue?_iff.1 (hps p hp)
    obtain ⟨bs, hbs⟩ := exists_readAs_iff.2 fun p hp => (hread p hp).1
    refine ⟨⟨_, decode_eq_ok_iff.2 ⟨ps, bs, rfl, hlen, hbs, rfl⟩⟩, fun hplus => ?_⟩
    obtain ⟨p, hp, hplus⟩ := plus_mem_written.1 hplus
    exact hplus.elim (hread p hp).2.1 (hread p hp).2.2
  · rintro ⟨⟨l, hl⟩, hplus⟩
    obtain ⟨ps, bs, rfl, hlen, hbs, -⟩ := decode_eq_ok_iff.1 hl
    refine ⟨ps, rfl, hlen, fun p hp => isSome_hexValue?_iff.2 ?_⟩
    refine ⟨exists_readAs_iff.1 ⟨bs, hbs⟩ p hp, fun h => hplus ?_, fun h => hplus ?_⟩
    · exact plus_mem_written.2 ⟨p, hp, .inl h⟩
    · exact plus_mem_written.2 ⟨p, hp, .inr h⟩

/-- What is read are at most eight bytes, each two digits of either case or a plus sign and one
digit, and they fill the slots from the first on; anything else is malformed.  Without plus signs
these are the texts of digits. -/
theorem decode_reads (s : String) :
    (∀ l, decode s = .ok l ↔ ∃ ps bs, s = written ps ∧ ps.length ≤ 8 ∧
        List.Forall₂ ReadAs ps bs ∧ ∀ i : Fin 8, slotByte (l.slots.get i) = bs.getD i 0) ∧
      ((¬ ∃ l, decode s = .ok l) → ∃ fault, decode s = .error (.malformedSummary fault)) ∧
      (HexText s ↔ (∃ l, decode s = .ok l) ∧ '+' ∉ s.toList) := by
  refine ⟨fun l => ?_, exists_malformed, hexText_iff⟩
  rw [decode_eq_ok_iff]
  constructor
  · rintro ⟨ps, bs, hs, hlen, hbs, hl⟩
    exact ⟨ps, bs, hs, hlen, hbs, (eq_ofBytes_iff (lt_of_readAs hbs)).1 hl⟩
  · rintro ⟨ps, bs, hs, hlen, hbs, hl⟩
    exact ⟨ps, bs, hs, hlen, hbs, (eq_ofBytes_iff (lt_of_readAs hbs)).2 hl⟩

/-- Upper case and an empty last slot, and a character beyond ASCII. -/
theorem decode_reads_mixed :
    HexText "esc:0aFf00" ∧ (∃ l, decode "esc:0aFf00" = .ok l) ∧
      ∃ fault, decode "esc:é" = .error (.malformedSummary fault) := by
  have htext : HexText "esc:0aFf00" :=
    ⟨[('0', 'a'), ('F', 'f'), ('0', '0')], by decide, by decide, by decide⟩
  refine ⟨htext, ((decode_reads _).2.2.1 htext).1, (decode_reads _).2.1 ?_⟩
  rintro ⟨l, hl⟩
  cases hl

/-- A plus sign is taken for a digit, so more is read than texts of digits. -/
theorem decode_plus_sign :
    (∃ l, decode "esc:+1" = .ok l ∧ l.encode = "esc:01") ∧ ¬ HexText "esc:+1" := by
  have hread : decode "esc:+1" = .ok (ofBytes [1]) :=
    decode_eq_ok_iff.2
      ⟨[('+', '1')], [1], by decide, by decide, .cons (.plus (by decide)) .nil, rfl⟩
  refine ⟨⟨_, hread, by decide⟩, fun h => (hexText_iff.1 h).2 (by decide)⟩

end EscapeFlow.Leaks
