import RecordForge.Guid
import RecordForge.Proofs.Text.Digits

/-!
# Identifiers as text

How an identifier is written is a relation (`Guid.Writing`): 32 hexadecimal digits in small letters, in
groups with hyphens between them. Every such text is read as the identifier (`Guid.read?_of_writing`): the
form without hyphens is tried first, and a hyphen is no digit, so it does not fit; then the groups are
joined again. The text that an identifier is given is one of them (`Guid.writing_hyphenated`).
-/

namespace RecordForge

/-! ## Hexadecimal digits -/

namespace Text

theorem hexDigit?_digitChar : ∀ d < 16, hexDigit? (Nat.digitChar d) = some d := by decide

/-- A digit at the end. -/
theorem ofHex?_concat {cs : List Char} {n d : Nat} (hcs : ofHex? cs = some n) (hd : d < 16) :
    ofHex? (cs ++ [d.digitChar]) = some (16 * n + d) := by
  obtain ⟨ds, hds, rfl⟩ := Option.map_eq_some_iff.mp hcs
  simp [ofHex?, hds, hexDigit?_digitChar d hd]

/-- A number is read back from its hexadecimal digits. -/
theorem ofHex?_toDigits (n : Nat) : ofHex? (Nat.toDigits 16 n) = some n := by
  induction n using Nat.strongRecOn with
  | ind n ih =>
    rw [Nat.toDigits_eq_if (by decide)]
    split
    · next hsmall =>
      have hdigit : ofHex? ([] ++ [n.digitChar]) = some (16 * 0 + n) := ofHex?_concat rfl hsmall
      simpa using hdigit
    · next hlarge =>
      rw [ofHex?_concat (ih (n / 16) (by omega)) (Nat.mod_lt n (by decide)), Nat.div_add_mod]

/-- Hexadecimal digits are in small letters. -/
theorem isUpper_toDigits (n : Nat) : ∀ c ∈ Nat.toDigits 16 n, c.isUpper = false := by
  have hdigit : ∀ d < 16, (Nat.digitChar d).isUpper = false := by decide
  induction n using Nat.strongRecOn with
  | ind n ih =>
    rw [Nat.toDigits_eq_if (by decide)]
    split
    · next hsmall => simpa using hdigit n hsmall
    · next hlarge =>
      rw [List.forall_mem_append, List.forall_mem_singleton]
      exact ⟨ih (n / 16) (by omega), hdigit _ (Nat.mod_lt n (by decide))⟩

theorem ofHex?_zero_cons (cs : List Char) : ofHex? ('0' :: cs) = ofHex? cs := by
  have hzero : hexDigit? '0' = some 0 := rfl
  cases hcs : cs.mapM hexDigit? <;> simp [ofHex?, hzero, hcs]

/-- Zeros in front of the digits change nothing. -/
theorem ofHex?_zeros_append (k : Nat) (cs : List Char) :
    ofHex? (List.replicate k '0' ++ cs) = ofHex? cs := by
  induction k with
  | zero => rfl
  | succ k ih => rw [List.replicate_succ, List.cons_append, ofHex?_zero_cons, ih]

/-- What reads as a number has digits only. -/
theorem hexDigit?_isSome_of_mem {cs : List Char} {n : Nat} (h : ofHex? cs = some n) :
    ∀ c ∈ cs, (hexDigit? c).isSome = true := by
  obtain ⟨ds, hds, -⟩ := Option.map_eq_some_iff.mp h
  clear h
  induction cs generalizing ds with
  | nil => exact List.forall_mem_nil _
  | cons c cs ih =>
    rw [List.mapM_cons] at hds
    obtain ⟨d, hd, hds⟩ := Option.bind_eq_some_iff.mp hds
    obtain ⟨ds', hds', -⟩ := Option.bind_eq_some_iff.mp hds
    exact List.forall_mem_cons.mpr ⟨hd ▸ rfl, ih ds' hds'⟩

/-- A hexadecimal digit is no blank. -/
theorem isBlank_of_hexDigit? {c : Char} (h : (hexDigit? c).isSome = true) : isBlank c = false := by
  have hrange : (48 ≤ c.toNat ∧ c.toNat ≤ 57) ∨ (97 ≤ c.toNat ∧ c.toNat ≤ 102) ∨
      (65 ≤ c.toNat ∧ c.toNat ≤ 70) := by
    unfold hexDigit? at h
    split at h
    · next hc => exact .inl hc
    · split at h
      · next hc => exact .inr (.inl hc)
      · split at h
        · next hc => exact .inr (.inr hc)
        · cases h
  simp only [isBlank, Bool.or_eq_false_iff, Bool.and_eq_false_iff, decide_eq_false_iff_not,
    beq_eq_false_iff_ne]
  omega

end Text

/-! ## Groups -/

namespace Guid

open Text

variable {ns : List Nat} {xs : List Char} {c : Char}

theorem intercalate_cut_cons (n m : Nat) (ms : List Nat) (xs : List Char) :
    ['-'].intercalate (cut (n :: m :: ms) xs) =
      xs.take n ++ '-' :: ['-'].intercalate (cut (m :: ms) (xs.drop n)) := by
  simp [cut, List.intercalate]

/-- What has been cut into groups is joined again. -/
theorem joinGroups?_intercalate (hne : ns ≠ []) (hlength : xs.length = ns.sum) :
    joinGroups? ns (['-'].intercalate (cut ns xs)) = some xs := by
  induction ns generalizing xs with
  | nil => contradiction
  | cons n ns ih =>
    cases ns with
    | nil =>
      have hn : xs.length = n := by simpa using hlength
      simp [cut, List.intercalate, joinGroups?, List.take_of_length_le (Nat.le_of_eq hn), hn]
    | cons m ms =>
      rw [List.sum_cons] at hlength
      have hn : (xs.take n).length = n := by rw [List.length_take]; omega
      have hlengthRest : (xs.drop n).length = (m :: ms).sum := by rw [List.length_drop]; omega
      have hrest := ih (List.cons_ne_nil m ms) hlengthRest
      rw [intercalate_cut_cons, joinGroups?, List.drop_left' hn]
      · simp [hrest, List.take_left' hn]
      · exact List.cons_ne_nil m ms

theorem mem_of_mem_intercalate (hc : c ∈ ['-'].intercalate (cut ns xs)) : c = '-' ∨ c ∈ xs := by
  induction ns generalizing xs with
  | nil => simp [cut, List.intercalate] at hc
  | cons n ns ih =>
    cases ns with
    | nil => exact .inr (List.mem_of_mem_take (by simpa [cut, List.intercalate] using hc))
    | cons m ms =>
      rw [intercalate_cut_cons, List.mem_append, List.mem_cons] at hc
      rcases hc with hc | rfl | hc
      · exact .inr (List.mem_of_mem_take hc)
      · exact .inl rfl
      · exact (ih hc).imp_right List.mem_of_mem_drop

/-! ## Identifiers -/

variable {g : Guid} {ds cs : List Char}

/-- How an identifier is written: all its digits in small letters, with hyphens between the groups. -/
inductive Writing (g : Guid) : List Char → Prop
  | groups {ds : List Char} (hlength : ds.length = 32) (hsmall : ∀ c ∈ ds, c.isUpper = false)
      (hvalue : ofHex? ds = some g.bits.toNat) : Writing g (['-'].intercalate (cut groups ds))

theorem ofDigits?_of_ofHex? (hlength : ds.length = 32) (hvalue : ofHex? ds = some g.bits.toNat) :
    ofDigits? ds = some g := by
  rw [ofDigits?, if_pos hlength, hvalue]
  simp

/-- A text with hyphens is no row of digits. -/
theorem ofDigits?_intercalate (ds : List Char) :
    ofDigits? (['-'].intercalate (cut groups ds)) = none := by
  have hhyphen : '-' ∈ ['-'].intercalate (cut groups ds) := by
    rw [groups, intercalate_cut_cons]
    simp
  cases hread : ofHex? (['-'].intercalate (cut groups ds)) with
  | none => rw [ofDigits?, hread]; exact ite_self none
  | some n => cases hexDigit?_isSome_of_mem hread '-' hhyphen

/-- **An identifier is read back from its writing.** -/
theorem read?_of_writing (h : g.Writing cs) : read? cs = some g := by
  cases h with
  | groups hlength _ hvalue =>
    rw [read?, ofDigits?_intercalate, ofHyphenated?, joinGroups?_intercalate (by decide) hlength,
      Option.bind_some, ofDigits?_of_ofHex? hlength hvalue]
    rfl

/-- A writing has no blanks. -/
theorem Writing.trim (h : g.Writing cs) : trim cs = cs := by
  cases h with
  | groups _ _ hvalue =>
    refine trim_of_no_blanks fun c hc => ?_
    rcases mem_of_mem_intercalate hc with rfl | hc
    · rfl
    · exact isBlank_of_hexDigit? (hexDigit?_isSome_of_mem hvalue c hc)

variable (g)

theorem ofHex?_hexDigits : ofHex? g.hexDigits = some g.bits.toNat := by
  rw [hexDigits, ofHex?_zeros_append, ofHex?_toDigits]

theorem length_hexDigits : g.hexDigits.length = 32 := by
  have hlength : (Nat.toDigits 16 g.bits.toNat).length ≤ 32 :=
    (Nat.length_toDigits_le_iff (by decide) (by decide)).mpr g.bits.isLt
  rw [hexDigits, List.length_append, List.length_replicate]
  omega

theorem isUpper_hexDigits : ∀ c ∈ g.hexDigits, c.isUpper = false := by
  rw [hexDigits, List.forall_mem_append]
  refine ⟨fun c hc => ?_, isUpper_toDigits _⟩
  rw [List.eq_of_mem_replicate hc]
  rfl

theorem writing_hyphenated : g.Writing g.hyphenated :=
  .groups g.length_hexDigits g.isUpper_hexDigits g.ofHex?_hexDigits

end Guid

end RecordForge
