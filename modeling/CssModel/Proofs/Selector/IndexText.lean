import CssModel.Selector.Index
import CssModel.Proofs.Text.Words

/-!
# The language of indexes

Which texts denote an index, and which index each of them denotes, stated apart from how they are
read: the words `odd` and `even`, a whole number, or a step, the letter `n` and an offset. A sign is
a factor of one or minus one in front of a run of digits; where the digits of a step are missing,
the factor itself is the step. White space stands around the whole text and around the sign of the
offset, and nowhere else.

Runs of digits have any length. Only what they denote has to fit into 32 bits, and the offset is
measured without its sign. So an index can be written in decimal and read back, with an exception:
an offset may be as small as minus two to the 31st, but its magnitude is then one too large.

## Main definitions

* `CssModel.Index.WritesInteger`, `CssModel.Index.WritesStep`, `CssModel.Index.WritesOffset`
* `CssModel.Index.Writes`: the language, in lower case and without outer white space
* `CssModel.Index.text`: an index in decimal

## Main results

* `CssModel.Index.readInteger?_eq_some_iff`, `CssModel.Index.readStep?_eq_some_iff`,
  `CssModel.Index.writesOffset_of_readOffset?`, `CssModel.Index.readOffset?_of_writesOffset`: what
  each reader accepts
* `CssModel.Index.ofText?_iff_writes`
* `CssModel.Index.ofText?_text`: which indexes are read back from their decimal text
-/

namespace CssModel

namespace Index

/-! ### The language -/

/-- An optional sign, and the factor that it stands for. -/
inductive OptionalSign : List Char → Int → Prop
  | absent : OptionalSign [] 1
  | plus : OptionalSign ['+'] 1
  | minus : OptionalSign ['-'] (-1)

/-- A run of decimal digits that is not empty. -/
structure IsDigitRun (cs : List Char) : Prop where
  ne_nil : cs ≠ []
  isDigit : ∀ c ∈ cs, c.isDigit = true

/-- A whole number: an optional sign and digits. -/
inductive WritesInteger : List Char → Int → Prop
  | intro {sign digits : List Char} {factor : Int} (hsign : OptionalSign sign factor)
      (hdigits : IsDigitRun digits) :
      WritesInteger (sign ++ digits) (factor * Nat.ofDigitChars 10 digits 0)

/-- What stands before the letter `n`. -/
inductive WritesStep : List Char → Int32 → Prop
  | bare {sign : List Char} {a : Int32} (hsign : OptionalSign sign a.toInt) : WritesStep sign a
  | number {cs : List Char} {a : Int32} (h : WritesInteger cs a.toInt) : WritesStep cs a

/-- What stands after the letter `n`. The digits alone must denote no more than the largest number
of 32 bits. -/
inductive WritesOffset : List Char → Int32 → Prop
  | absent : WritesOffset [] 0
  | signed {before after digits : List Char} {sign : Char} {factor : Int} {b : Int32}
      (hbefore : Ascii.IsBlankRun before) (hsign : OptionalSign [sign] factor)
      (hafter : Ascii.IsBlankRun after) (hdigits : IsDigitRun digits)
      (hle : Nat.ofDigitChars 10 digits 0 ≤ 2147483647)
      (hb : b.toInt = factor * Nat.ofDigitChars 10 digits 0) :
      WritesOffset (before ++ sign :: (after ++ digits)) b

/-- The text denotes the index. -/
inductive Writes : List Char → Index → Prop
  | odd : Writes ['o', 'd', 'd'] ⟨2, 1⟩
  | even : Writes ['e', 'v', 'e', 'n'] ⟨2, 0⟩
  | constant {cs : List Char} {b : Int32} (h : WritesInteger cs b.toInt) : Writes cs ⟨0, b⟩
  | linear {step offset : List Char} {a b : Int32} (hstep : WritesStep step a)
      (hoffset : WritesOffset offset b) : Writes (step ++ 'n' :: offset) ⟨a, b⟩

/-! ### Digits and signs -/

theorem readDigits?_eq_some_iff {cs : List Char} {n : Nat} :
    readDigits? cs = some n ↔ IsDigitRun cs ∧ n = Nat.ofDigitChars 10 cs 0 := by
  have hrun : (! cs.isEmpty && cs.all Char.isDigit) = true ↔ IsDigitRun cs := by
    rw [Bool.and_eq_true, Bool.not_eq_true', List.isEmpty_eq_false_iff, List.all_eq_true]
    exact ⟨fun ⟨hne, hall⟩ => ⟨hne, hall⟩, fun h => ⟨h.ne_nil, h.isDigit⟩⟩
  rw [readDigits?, Nat.ofDigitChars_eq_foldl]
  split
  · next h => simp [hrun.mp h, eq_comm]
  · next h => simp [mt hrun.mpr h]

/-- A number fits if it is that of some 32 bits. -/
theorem fit?_eq_some_iff {n : Int} {a : Int32} : fit? n = some a ↔ a.toInt = n := by
  have hlow := a.le_toInt
  have hhigh := a.toInt_lt
  rw [fit?]
  split
  · next h =>
    rw [Option.some.injEq, ← Int32.toInt_inj, Int32.toInt_ofInt_of_le (by omega) (by omega)]
    exact eq_comm
  · next h =>
    refine iff_of_false (by simp) fun heq => h ?_
    omega

theorem readDigits?_bind_eq_some_iff {cs : List Char} {a : Int32} {f : Nat → Int} :
    ((readDigits? cs).bind fun n => fit? (f n)) = some a ↔
      IsDigitRun cs ∧ a.toInt = f (Nat.ofDigitChars 10 cs 0) := by
  rw [Option.bind_eq_some_iff]
  simp only [readDigits?_eq_some_iff, fit?_eq_some_iff]
  constructor
  · rintro ⟨n, ⟨hrun, rfl⟩, ha⟩
    exact ⟨hrun, ha⟩
  · rintro ⟨hrun, ha⟩
    exact ⟨_, ⟨hrun, rfl⟩, ha⟩

theorem IsDigitRun.ne_sign {cs : List Char} (h : IsDigitRun cs) {c : Char} (hc : c ∈ cs) :
    c ≠ '+' ∧ c ≠ '-' := by
  have hdigit := h.isDigit c hc
  constructor <;> rintro rfl <;> cases hdigit

/-- **Whole numbers.** -/
theorem readInteger?_eq_some_iff {cs : List Char} {a : Int32} :
    readInteger? cs = some a ↔ WritesInteger cs a.toInt := by
  constructor
  · intro h
    unfold readInteger? at h
    split at h
    · next digits =>
      obtain ⟨hrun, ha⟩ := readDigits?_bind_eq_some_iff.mp h
      rw [ha, ← Int.neg_one_mul]
      exact .intro .minus hrun
    · next digits =>
      obtain ⟨hrun, ha⟩ := readDigits?_bind_eq_some_iff.mp h
      rw [ha, ← Int.one_mul (Nat.cast _)]
      exact .intro .plus hrun
    · obtain ⟨hrun, ha⟩ := readDigits?_bind_eq_some_iff.mp h
      rw [ha, ← Int.one_mul (Nat.cast _)]
      exact .intro .absent hrun
  · intro h
    generalize hn : a.toInt = n at h
    obtain ⟨hsign, hrun⟩ := h
    cases hsign with
    | absent =>
      rw [Int.one_mul] at hn
      rw [List.nil_append]
      unfold readInteger?
      split
      · exact absurd rfl (hrun.ne_sign List.mem_cons_self).2
      · exact absurd rfl (hrun.ne_sign List.mem_cons_self).1
      · exact readDigits?_bind_eq_some_iff.mpr ⟨hrun, hn⟩
    | plus =>
      rw [Int.one_mul] at hn
      exact readDigits?_bind_eq_some_iff.mpr ⟨hrun, hn⟩
    | minus =>
      rw [Int.neg_one_mul] at hn
      exact readDigits?_bind_eq_some_iff.mpr ⟨hrun, hn⟩

/-! ### Steps -/

/-- **Steps.** A sign alone is no whole number, so the two readings of a step never meet. -/
theorem readStep?_eq_some_iff {cs : List Char} {a : Int32} :
    readStep? cs = some a ↔ WritesStep cs a := by
  have hbare : ∀ {sign : List Char} {factor : Int}, OptionalSign sign factor →
      (readStep? sign = some a ↔ a.toInt = factor) := by
    intro sign factor hsign
    cases hsign <;> simp [readStep?, ← Int32.toInt_inj, eq_comm]
  constructor
  · intro h
    unfold readStep? at h
    split at h
    · exact .bare ((hbare .absent).mp h ▸ .absent)
    · exact .bare ((hbare .plus).mp h ▸ .plus)
    · exact .bare ((hbare .minus).mp h ▸ .minus)
    · exact .number (readInteger?_eq_some_iff.mp h)
  · rintro (hsign | h)
    · exact (hbare hsign).mpr rfl
    · have hread := readInteger?_eq_some_iff.mpr h
      unfold readStep?
      split
      · cases hread
      · cases hread
      · cases hread
      · exact hread

/-- The characters of a step and of a whole number. -/
def IsSignOrDigit (c : Char) : Prop :=
  c = '+' ∨ c = '-' ∨ c.isDigit = true

/-- Signs and digits are no white space, and they have no letter case. -/
theorem IsSignOrDigit.isBlank_and_toLower {c : Char} (h : IsSignOrDigit c) :
    Ascii.isBlank c = false ∧ c.toLower = c := by
  obtain rfl | rfl | hdigit := h
  · decide
  · decide
  · have hrange : 48 ≤ c.toNat ∧ c.toNat ≤ 57 := by
      simpa [Char.isDigit, UInt32.le_iff_toNat_le] using hdigit
    constructor
    · rw [← Bool.not_eq_true, Ascii.isBlank_iff_toNat]
      simp only [List.mem_cons, List.not_mem_nil, or_false]
      omega
    · obtain heq | hupper := Ascii.toNat_toLower c
      · exact Char.toNat_inj.mp heq
      · omega

theorem OptionalSign.isSignOrDigit {sign : List Char} {factor : Int}
    (h : OptionalSign sign factor) : ∀ c ∈ sign, IsSignOrDigit c := by
  cases h <;> simp [IsSignOrDigit]

theorem WritesInteger.isSignOrDigit {cs : List Char} {n : Int} (h : WritesInteger cs n) :
    ∀ c ∈ cs, IsSignOrDigit c := by
  obtain ⟨hsign, hdigits⟩ := h
  intro c hc
  obtain hc | hc := List.mem_append.mp hc
  · exact hsign.isSignOrDigit c hc
  · exact .inr (.inr (hdigits.isDigit c hc))

theorem WritesStep.isSignOrDigit {cs : List Char} {a : Int32} (h : WritesStep cs a) :
    ∀ c ∈ cs, IsSignOrDigit c := by
  cases h with
  | bare hsign => exact hsign.isSignOrDigit
  | number h => exact h.isSignOrDigit

theorem not_isSignOrDigit : ∀ c ∈ ['o', 'e', 'n'], ¬ IsSignOrDigit c := by
  simp [IsSignOrDigit]

/-! ### Offsets -/

theorem IsDigitRun.isBlank_head? {cs : List Char} (h : IsDigitRun cs) :
    ∀ c ∈ cs.head?, Ascii.isBlank c = false := by
  intro c hc
  have hdigit := h.isDigit c (List.mem_of_mem_head? hc)
  exact (IsSignOrDigit.isBlank_and_toLower (.inr (.inr hdigit))).1

theorem readMagnitude?_eq_some_iff {cs : List Char} {b : Int32} :
    readMagnitude? cs = some b ↔ ∃ after digits, cs = after ++ digits ∧ Ascii.IsBlankRun after ∧
      IsDigitRun digits ∧ b.toInt = Nat.ofDigitChars 10 digits 0 := by
  rw [readMagnitude?, readDigits?_bind_eq_some_iff]
  constructor
  · rintro ⟨hrun, hb⟩
    obtain ⟨after, hafter, hcs⟩ := Ascii.exists_isBlankRun cs
    exact ⟨after, _, hcs, hafter, hrun, hb⟩
  · rintro ⟨after, digits, rfl, hafter, hrun, hb⟩
    rw [Ascii.dropWhile_append_of_isBlankRun hafter hrun.isBlank_head?]
    exact ⟨hrun, hb⟩

/-- The opposite of a number that is not negative fits too. -/
theorem toInt_neg {n : Int32} (h : 0 ≤ n.toInt) : (-n).toInt = -n.toInt := by
  have hhigh := n.toInt_lt
  rw [Int32.toInt_neg]
  exact Int.bmod_eq_of_le (by omega) (by omega)

theorem writesOffset_of_readOffset? {cs : List Char} {b : Int32}
    (hlast : ∀ c ∈ cs.getLast?, Ascii.isBlank c = false) (h : readOffset? cs = some b) :
    WritesOffset cs b := by
  obtain ⟨before, hbefore, hcs⟩ := Ascii.exists_isBlankRun cs
  unfold readOffset? at h
  split at h
  · next hrest =>
    rw [hrest, List.append_nil] at hcs
    obtain rfl : cs = [] := by
      refine List.getLast?_eq_none_iff.mp (Option.eq_none_iff_forall_ne_some.mpr ?_)
      intro c hc
      have hblank := hbefore c (hcs ▸ List.mem_of_getLast? hc)
      simp [hlast c hc] at hblank
    obtain rfl := Option.some.inj h
    exact .absent
  · next rest hrest =>
    obtain ⟨after, digits, rfl, hafter, hdigits, hb⟩ := readMagnitude?_eq_some_iff.mp h
    rw [hcs, hrest]
    have hhigh := b.toInt_lt
    exact .signed hbefore .plus hafter hdigits (by omega) (by rw [hb, Int.one_mul])
  · next rest hrest =>
    obtain ⟨n, hn, rfl⟩ := Option.map_eq_some_iff.mp h
    obtain ⟨after, digits, rfl, hafter, hdigits, hmagnitude⟩ := readMagnitude?_eq_some_iff.mp hn
    rw [hcs, hrest]
    have hhigh := n.toInt_lt
    have hneg := toInt_neg (n := n) (by omega)
    refine .signed hbefore .minus hafter hdigits (by omega) ?_
    rw [hneg, hmagnitude, Int.neg_one_mul]
  · cases h

theorem readOffset?_of_writesOffset {cs : List Char} {b : Int32} (h : WritesOffset cs b) :
    readOffset? cs = some b := by
  cases h with
  | absent => rfl
  | @signed before after digits sign factor _ hbefore hsign hafter hdigits hle hb =>
    have hsignBlank : Ascii.isBlank sign = false := by
      cases hsign <;> rfl
    have hrest : (before ++ sign :: (after ++ digits)).dropWhile Ascii.isBlank =
        sign :: (after ++ digits) :=
      Ascii.dropWhile_append_of_isBlankRun hbefore fun c hc => by
        rwa [← Option.some.inj hc]
    let magnitude := Int32.ofInt (Nat.ofDigitChars 10 digits 0)
    have hmagnitude : magnitude.toInt = Nat.ofDigitChars 10 digits 0 :=
      Int32.toInt_ofInt_of_le (by omega) (by omega)
    have hread : readMagnitude? (after ++ digits) = some magnitude :=
      readMagnitude?_eq_some_iff.mpr ⟨after, digits, rfl, hafter, hdigits, hmagnitude⟩
    rw [readOffset?, hrest]
    cases hsign with
    | plus =>
      have heq : magnitude = b := Int32.toInt_inj.mp (by rw [hmagnitude, hb, Int.one_mul])
      exact heq ▸ hread
    | minus =>
      have hneg := toInt_neg (n := magnitude) (by omega)
      have heq : -magnitude = b :=
        Int32.toInt_inj.mp (by rw [hneg, hmagnitude, hb, Int.neg_one_mul])
      simp only [hread, Option.map_some, heq]

/-! ### Indexes -/

/-- The first letter `n` ends the step. -/
theorem takeWhile_ne_n {step : List Char} (h : ∀ c ∈ step, IsSignOrDigit c)
    (offset : List Char) :
    (step ++ 'n' :: offset).takeWhile (· ≠ 'n') = step ∧
      ((step ++ 'n' :: offset).dropWhile (· ≠ 'n')).drop 1 = offset := by
  have hne : ∀ c ∈ step, decide (c ≠ 'n') = true := by
    intro c hc
    refine decide_eq_true ?_
    rintro rfl
    exact not_isSignOrDigit 'n' (by simp) (h 'n' hc)
  rw [List.takeWhile_append_of_pos hne, List.dropWhile_append_of_pos hne]
  simp

theorem eq_append_of_mem_n {cs : List Char} (h : 'n' ∈ cs) :
    cs = cs.takeWhile (· ≠ 'n') ++ 'n' :: (cs.dropWhile (· ≠ 'n')).drop 1 := by
  have hne : cs.dropWhile (· ≠ 'n') ≠ [] := by
    intro hnil
    simpa using List.dropWhile_eq_nil_iff.mp hnil 'n' h
  have hhead : (cs.dropWhile (· ≠ 'n')).head hne = 'n' := by
    simpa using List.head_dropWhile_not (· ≠ 'n') hne
  have hrest : 'n' :: (cs.dropWhile (· ≠ 'n')).drop 1 = cs.dropWhile (· ≠ 'n') := by
    have hcons := List.cons_head_tail hne
    rwa [hhead, ← List.drop_one] at hcons
  rw [hrest, List.takeWhile_append_dropWhile]

/-- What is read when the text is none of the two words and holds the letter `n`. -/
theorem linear_eq_some_iff {step offset : List Char} {i : Index} :
    (do
      let a ← readStep? step
      let b ← readOffset? offset
      return (⟨a, b⟩ : Index)) = some i ↔
      readStep? step = some i.step ∧ readOffset? offset = some i.offset := by
  cases i
  cases readStep? step <;> cases readOffset? offset <;> simp

/-- Whole numbers are neither of the two words, and have no step. -/
theorem ne_words_of_isSignOrDigit {cs : List Char} (h : ∀ c ∈ cs, IsSignOrDigit c) :
    cs ≠ "odd".toList ∧ cs ≠ "even".toList ∧ ¬ cs.contains 'n' = true := by
  refine ⟨?_, ?_, fun hn => ?_⟩
  · rintro rfl
    exact not_isSignOrDigit 'o' (by simp) (h 'o' (by simp))
  · rintro rfl
    exact not_isSignOrDigit 'e' (by simp) (h 'e' (by simp))
  · exact not_isSignOrDigit 'n' (by simp) (h 'n' (List.contains_iff_mem.mp hn))

/-- What has a step is neither of the two words, although one of them has the letter in it. -/
theorem step_append_ne_words {step : List Char} (h : ∀ c ∈ step, IsSignOrDigit c)
    (offset : List Char) :
    step ++ 'n' :: offset ≠ "odd".toList ∧ step ++ 'n' :: offset ≠ "even".toList := by
  constructor
  · intro heq
    have hmem : 'n' ∈ "odd".toList := heq ▸ by simp
    simp at hmem
  · cases step with
    | nil => simp
    | cons c step =>
      intro heq
      obtain rfl : c = 'e' := (List.cons.inj heq).1
      exact not_isSignOrDigit 'e' (by simp) (h 'e' (by simp))

/-- What has a step is read in two parts. -/
theorem read?_append_n {step : List Char} (h : ∀ c ∈ step, IsSignOrDigit c) (offset : List Char) :
    read? (step ++ 'n' :: offset) = do
      let a ← readStep? step
      let b ← readOffset? offset
      return ⟨a, b⟩ := by
  obtain ⟨hodd, heven⟩ := step_append_ne_words h offset
  obtain ⟨htake, hdrop⟩ := takeWhile_ne_n h offset
  rw [read?, if_neg hodd, if_neg heven, if_pos (by simp), htake, hdrop]

/-- White space at the end of an offset would be at the end of the text. -/
theorem isBlank_getLast?_offset {step offset : List Char}
    (h : ∀ c ∈ (step ++ 'n' :: offset).getLast?, Ascii.isBlank c = false) :
    ∀ c ∈ offset.getLast?, Ascii.isBlank c = false := by
  intro c hc
  refine h c ?_
  rw [List.getLast?_append, List.getLast?_cons, Option.mem_def.mp hc]
  rfl

theorem writes_of_read? {cs : List Char} {i : Index}
    (hlast : ∀ c ∈ cs.getLast?, Ascii.isBlank c = false) (h : read? cs = some i) :
    Writes cs i := by
  unfold read? at h
  split at h
  · next hodd =>
    obtain rfl := Option.some.inj h
    exact hodd ▸ .odd
  · split at h
    · next heven =>
      obtain rfl := Option.some.inj h
      exact heven ▸ .even
    · split at h
      · next hn =>
        have hcs := eq_append_of_mem_n (List.contains_iff_mem.mp hn)
        obtain ⟨hstep, hoffset⟩ := linear_eq_some_iff.mp h
        rw [hcs] at hlast ⊢
        exact .linear (readStep?_eq_some_iff.mp hstep)
          (writesOffset_of_readOffset? (isBlank_getLast?_offset hlast) hoffset)
      · obtain ⟨b, hb, rfl⟩ := Option.map_eq_some_iff.mp h
        exact .constant (readInteger?_eq_some_iff.mp hb)

theorem read?_of_writes {cs : List Char} {i : Index} (h : Writes cs i) : read? cs = some i := by
  cases h with
  | odd => rfl
  | even => rfl
  | constant h =>
    obtain ⟨hodd, heven, hn⟩ := ne_words_of_isSignOrDigit h.isSignOrDigit
    rw [read?, if_neg hodd, if_neg heven, if_neg hn, readInteger?_eq_some_iff.mpr h]
    rfl
  | linear hstep hoffset =>
    rw [read?_append_n hstep.isSignOrDigit]
    exact linear_eq_some_iff.mpr
      ⟨readStep?_eq_some_iff.mpr hstep, readOffset?_of_writesOffset hoffset⟩

/-- **The language, in lower case and without white space at the end.** -/
theorem read?_eq_some_iff {cs : List Char} {i : Index}
    (hlast : ∀ c ∈ cs.getLast?, Ascii.isBlank c = false) :
    read? cs = some i ↔ Writes cs i :=
  ⟨writes_of_read? hlast, read?_of_writes⟩

/-- **The language of indexes.** A text denotes an index if what is left of it between white space,
in lower case, writes it. -/
theorem ofText?_iff_writes (text : String) :
    ∃ core, (∀ cs, Ascii.TrimsTo text.toList cs ↔ cs = core) ∧
      ∀ i, ofText? text = some i ↔ Writes (core.map Char.toLower) i := by
  refine ⟨Ascii.trimChars text.toList, fun cs => Ascii.trimsTo_iff, fun i => ?_⟩
  refine read?_eq_some_iff fun c hc => ?_
  rw [List.getLast?_map, Option.mem_def] at hc
  obtain ⟨d, hd, rfl⟩ := Option.map_eq_some_iff.mp hc
  rw [Ascii.isBlank_toLower]
  exact (Ascii.trimsTo_iff.mpr rfl).last d hd

/-! ### Writing and reading back -/

/-- The index in decimal: the step, the letter `n`, and the offset behind its sign. -/
def text (i : Index) : String :=
  i.step.toInt.repr ++ "n" ++ (if 0 ≤ i.offset.toInt then "+" else "-") ++
    i.offset.toInt.natAbs.repr

theorem isDigitRun_repr (n : Nat) : IsDigitRun n.repr.toList where
  ne_nil := by
    rw [Nat.toList_repr]
    exact Nat.toDigits_ne_nil
  isDigit c hc := by
    rw [Nat.toList_repr] at hc
    exact Nat.isDigit_of_mem_toDigits (by decide) (by decide) hc

theorem ofDigitChars_repr (n : Nat) : Nat.ofDigitChars 10 n.repr.toList 0 = n := by
  rw [Nat.toList_repr, Nat.ofDigitChars_ten_toDigits]

theorem writesInteger_repr (n : Int) : WritesInteger n.repr.toList n := by
  cases n with
  | ofNat n =>
    have hwrites := WritesInteger.intro .absent (isDigitRun_repr n)
    rwa [ofDigitChars_repr, Int.one_mul] at hwrites
  | negSucc n =>
    have hwrites := WritesInteger.intro .minus (isDigitRun_repr (n + 1))
    rw [ofDigitChars_repr, Int.neg_one_mul, List.singleton_append] at hwrites
    have hrepr : (Int.negSucc n).repr.toList = '-' :: (n + 1).repr.toList := by
      show ("-" ++ (n + 1).repr).toList = _
      simp
    rwa [hrepr]

theorem writesOffset_repr {sign : Char} {factor : Int} {b : Int32} {n : Nat}
    (hsign : OptionalSign [sign] factor) (hle : n ≤ 2147483647) (hb : b.toInt = factor * n) :
    WritesOffset (sign :: n.repr.toList) b := by
  rw [← ofDigitChars_repr n] at hle hb
  exact .signed Ascii.isBlankRun_nil hsign Ascii.isBlankRun_nil (isDigitRun_repr n) hle hb

/-- The magnitude of an offset is read before its sign counts, so that that of the smallest number
does not fit. -/
theorem readOffset?_repr (b : Int32) :
    readOffset? ((if 0 ≤ b.toInt then '+' else '-') :: b.toInt.natAbs.repr.toList) =
      if b = Int32.minValue then none else some b := by
  have hmin : b = Int32.minValue ↔ b.toInt = -2147483648 := Int32.toInt_inj.symm
  have hlow := b.le_toInt
  have hhigh := b.toInt_lt
  by_cases hnonneg : 0 ≤ b.toInt
  · have hwrites : WritesOffset ('+' :: b.toInt.natAbs.repr.toList) b :=
      writesOffset_repr .plus (by omega) (by omega)
    rw [if_pos hnonneg, if_neg (mt hmin.mp (by omega))]
    exact readOffset?_of_writesOffset hwrites
  · rw [if_neg hnonneg]
    split
    · next hb =>
      subst hb
      rfl
    · next hb =>
      rw [hmin] at hb
      have hwrites : WritesOffset ('-' :: b.toInt.natAbs.repr.toList) b :=
        writesOffset_repr .minus (by omega) (by omega)
      exact readOffset?_of_writesOffset hwrites

theorem toList_text (i : Index) : i.text.toList = i.step.toInt.repr.toList ++
    'n' :: (if 0 ≤ i.offset.toInt then '+' else '-') :: i.offset.toInt.natAbs.repr.toList := by
  rw [text]
  split <;> simp

/-- The text of an index is in lower case, and nothing is trimmed from it. -/
theorem ofText?_text_eq_read? (i : Index) : ofText? i.text = read? i.text.toList := by
  have hplain : ∀ c ∈ i.text.toList, Ascii.isBlank c = false ∧ c.toLower = c := by
    rw [toList_text]
    simp only [List.mem_append, List.mem_cons]
    rintro c (hstep | rfl | rfl | hdigit)
    · exact ((writesInteger_repr i.step.toInt).isSignOrDigit c hstep).isBlank_and_toLower
    · decide
    · split <;> decide
    · have hdigit := (isDigitRun_repr _).isDigit c hdigit
      exact IsSignOrDigit.isBlank_and_toLower (.inr (.inr hdigit))
  have htrim := Ascii.trimChars_of_forall fun c hc => (hplain c hc).1
  have hlower : i.text.toList.map Char.toLower = i.text.toList :=
    (List.map_congr_left fun c hc => (hplain c hc).2).trans (List.map_id _)
  rw [ofText?, htrim, hlower]

/-- **Writing and reading back.** An index is read back from its decimal text, unless its offset is
the smallest number of 32 bits: then the text denotes nothing. -/
theorem ofText?_text (i : Index) :
    ofText? i.text = if i.offset = Int32.minValue then none else some i := by
  have hwrites := writesInteger_repr i.step.toInt
  rw [ofText?_text_eq_read?, toList_text, read?_append_n hwrites.isSignOrDigit,
    readStep?_eq_some_iff.mpr (.number hwrites), readOffset?_repr]
  split <;> rfl

/-- The smallest number is read alone and as a step, where its sign is read with it, but not as an
offset. -/
theorem smallest_offset_not_read_back :
    (⟨1, Int32.minValue⟩ : Index).text = "1n-2147483648" ∧ ofText? "1n-2147483648" = none ∧
      ofText? "-2147483648" = some ⟨0, Int32.minValue⟩ ∧
        ofText? "-2147483648n" = some ⟨Int32.minValue, 0⟩ := by
  decide

end Index

end CssModel
