import CssModel.Text.Ascii
import Mathlib

/-!
# White space around and between words

White space is the same in both letter cases, so that a text may be cut at white space before or
after its letters are folded. What is left of a text between white space on both sides is said
without saying how it is found, and so is what stands between white space within a text.

## Main definitions

* `CssModel.Ascii.IsBlankRun`
* `CssModel.Ascii.TrimsTo`: what is left between white space on both sides
* `CssModel.Ascii.IsWord`: a maximal run without white space

## Main results

* `CssModel.Ascii.trimsTo_iff`
* `CssModel.Ascii.wordChars_map_toLower`
* `CssModel.Ascii.ne_nil_of_mem_wordChars`, `CssModel.Ascii.isBlank_of_mem_wordChars`
* `CssModel.Ascii.mem_wordChars_iff`
-/

namespace CssModel.Ascii

/-! ### Letter case -/

theorem isBlank_iff_toNat {c : Char} : isBlank c = true ↔ c.toNat ∈ [32, 9, 10, 12, 13] := by
  simp only [isBlank, Bool.or_eq_true, beq_iff_eq, ← Char.toNat_inj]
  simp [or_assoc]

theorem toNat_toLower (c : Char) : c.toLower.toNat = c.toNat ∨
    (65 ≤ c.toNat ∧ c.toNat ≤ 90 ∧ c.toLower.toNat = c.toNat + 32) := by
  rw [Char.toLower]
  split
  · next h =>
    have hlow : 65 ≤ c.toNat := UInt32.le_iff_toNat_le.mp h.1
    have hhigh : c.toNat ≤ 90 := UInt32.le_iff_toNat_le.mp h.2
    refine .inr ⟨hlow, hhigh, ?_⟩
    show (c.toNat + 32) % 2 ^ 32 = c.toNat + 32
    omega
  · exact .inl rfl

theorem isBlank_toLower (c : Char) : isBlank c.toLower = isBlank c := by
  rw [Bool.eq_iff_iff, isBlank_iff_toNat, isBlank_iff_toNat]
  obtain heq | ⟨hlow, hhigh, hlower⟩ := toNat_toLower c
  · rw [heq]
  · simp only [List.mem_cons, List.not_mem_nil, or_false]
    omega

theorem toLower_toLower (c : Char) : c.toLower.toLower = c.toLower := by
  rw [← Char.toNat_inj]
  obtain heq | ⟨hlow, hhigh, hlower⟩ := toNat_toLower c
  · rw [Char.toNat_inj.mp heq, heq]
  · obtain heq' | ⟨-, hhigh', -⟩ := toNat_toLower c.toLower
    · exact heq'
    · omega

/-! ### Trimming -/

/-- A run of white space, which may be empty. -/
def IsBlankRun (cs : List Char) : Prop :=
  ∀ c ∈ cs, isBlank c = true

/-- White space may stand on both sides of what is left, but not at its ends. -/
structure TrimsTo (cs core : List Char) : Prop where
  exists_eq : ∃ before after, IsBlankRun before ∧ IsBlankRun after ∧ cs = before ++ core ++ after
  head : ∀ c ∈ core.head?, isBlank c = false
  last : ∀ c ∈ core.getLast?, isBlank c = false

theorem isBlankRun_nil : IsBlankRun [] :=
  fun _ hc => absurd hc List.not_mem_nil

theorem dropWhile_append_of_isBlankRun {run rest : List Char} (h : IsBlankRun run)
    (hrest : ∀ c ∈ rest.head?, isBlank c = false) : (run ++ rest).dropWhile isBlank = rest := by
  rw [List.dropWhile_append_of_pos h]
  cases rest with
  | nil => rfl
  | cons c rest =>
    have hc := hrest c rfl
    exact List.dropWhile_cons_of_neg (by simp [hc])

theorem exists_isBlankRun (cs : List Char) :
    ∃ run, IsBlankRun run ∧ cs = run ++ cs.dropWhile isBlank :=
  ⟨cs.takeWhile isBlank, fun _ => List.mem_takeWhile_imp, (List.takeWhile_append_dropWhile).symm⟩

theorem isBlank_head?_dropWhile (cs : List Char) :
    ∀ c ∈ (cs.dropWhile isBlank).head?, isBlank c = false := by
  intro c hc
  have hhead := List.head?_dropWhile_not isBlank cs
  rw [Option.mem_def.mp hc] at hhead
  simpa using hhead

theorem IsBlankRun.reverse {run : List Char} (h : IsBlankRun run) : IsBlankRun run.reverse :=
  fun c hc => h c (List.mem_reverse.mp hc)

theorem trimChars_append {before core after : List Char} (hbefore : IsBlankRun before)
    (hafter : IsBlankRun after) (hhead : ∀ c ∈ core.head?, isBlank c = false)
    (hlast : ∀ c ∈ core.getLast?, isBlank c = false) :
    trimChars (before ++ core ++ after) = core := by
  cases core with
  | nil =>
    have hrun : IsBlankRun (before ++ after) := by
      intro c hc
      exact (List.mem_append.mp hc).elim (hbefore c) (hafter c)
    rw [List.append_nil, trimChars, List.dropWhile_eq_nil_iff.mpr hrun]
    rfl
  | cons c core =>
    have hleft : (before ++ (c :: core ++ after)).dropWhile isBlank = c :: core ++ after :=
      dropWhile_append_of_isBlankRun hbefore hhead
    have hright : ((c :: core ++ after).reverse).dropWhile isBlank = (c :: core).reverse := by
      rw [List.reverse_append]
      refine dropWhile_append_of_isBlankRun hafter.reverse ?_
      rwa [List.head?_reverse]
    rw [List.append_assoc, trimChars, hleft, hright, List.reverse_reverse]

/-- Where there is no white space, nothing is trimmed. -/
theorem trimChars_of_forall {cs : List Char} (h : ∀ c ∈ cs, isBlank c = false) :
    trimChars cs = cs := by
  have htrim := trimChars_append isBlankRun_nil isBlankRun_nil
    (fun c hc => h c (List.mem_of_mem_head? hc)) (fun c hc => h c (List.mem_of_getLast? hc))
  rwa [List.nil_append, List.append_nil] at htrim

/-- **Trimming.** What is left is one text only. -/
theorem trimsTo_iff {cs core : List Char} : TrimsTo cs core ↔ core = trimChars cs := by
  constructor
  · rintro ⟨⟨before, after, hbefore, hafter, rfl⟩, hhead, hlast⟩
    exact (trimChars_append hbefore hafter hhead hlast).symm
  · rintro rfl
    obtain ⟨before, hbefore, hcs⟩ := exists_isBlankRun cs
    obtain ⟨after, hafter, hrest⟩ := exists_isBlankRun (cs.dropWhile isBlank).reverse
    have hcore : cs.dropWhile isBlank = trimChars cs ++ after.reverse := by
      rw [trimChars, ← List.reverse_append, ← hrest, List.reverse_reverse]
    refine ⟨⟨before, after.reverse, hbefore, hafter.reverse, ?_⟩, fun c hc => ?_, fun c hc => ?_⟩
    · rw [List.append_assoc, ← hcore]
      exact hcs
    · refine isBlank_head?_dropWhile cs c ?_
      rw [hcore, List.head?_append, Option.mem_def.mp hc]
      rfl
    · rw [trimChars, List.getLast?_reverse] at hc
      exact isBlank_head?_dropWhile _ c hc

/-! ### Words -/

theorem splitOnP_map_toLower (cs : List Char) :
    (cs.map Char.toLower).splitOnP isBlank =
      (cs.splitOnP isBlank).map (List.map Char.toLower) := by
  induction cs with
  | nil => simp
  | cons c cs ih =>
    rw [List.map_cons, List.splitOnP_cons_eq_if_modifyHead, List.splitOnP_cons_eq_if_modifyHead,
      isBlank_toLower, ih]
    split
    · rfl
    · cases cs.splitOnP isBlank <;> rfl

theorem wordChars_map_toLower (cs : List Char) :
    wordChars (cs.map Char.toLower) = (wordChars cs).map (List.map Char.toLower) := by
  rw [wordChars, wordChars, splitOnP_map_toLower, List.filter_map]
  congr 1
  refine List.filter_congr fun word _ => ?_
  simp

/-- No part of a text holds a character at which the text is cut. -/
theorem eq_false_of_mem_splitOnP {p : Char → Bool} {cs : List Char} :
    ∀ part ∈ cs.splitOnP p, ∀ c ∈ part, p c = false := by
  induction cs with
  | nil => simp
  | cons c cs ih =>
    rw [List.splitOnP_cons_eq_if_modifyHead]
    split
    · next hc =>
      intro part hpart
      obtain rfl | hpart := List.mem_cons.mp hpart
      · simp
      · exact ih part hpart
    · next hc =>
      cases hsplit : cs.splitOnP p with
      | nil => simp
      | cons first others =>
        rw [hsplit] at ih
        intro part hpart
        obtain rfl | hpart := List.mem_cons.mp hpart
        · intro d hd
          obtain rfl | hd := List.mem_cons.mp hd
          · simpa using hc
          · exact ih first List.mem_cons_self d hd
        · exact ih part (List.mem_cons_of_mem _ hpart)

theorem ne_nil_of_mem_wordChars {cs word : List Char} (h : word ∈ wordChars cs) : word ≠ [] := by
  simpa using (List.mem_filter.mp h).2

theorem isBlank_of_mem_wordChars {cs word : List Char} (h : word ∈ wordChars cs) :
    ∀ c ∈ word, isBlank c = false :=
  eq_false_of_mem_splitOnP word (List.mem_filter.mp h).1

/-- A word of a text: a run of characters that are not white space, as long as it can be. On either
side of it the text ends or white space follows. -/
structure IsWord (cs word : List Char) : Prop where
  ne_nil : word ≠ []
  isBlank_eq_false : ∀ c ∈ word, isBlank c = false
  exists_eq : ∃ before after, cs = before ++ word ++ after ∧
    (∀ c ∈ before.getLast?, isBlank c = true) ∧ ∀ c ∈ after.head?, isBlank c = true

theorem wordChars_append_cons {c : Char} (hc : isBlank c = true) (before after : List Char) :
    wordChars (before ++ c :: after) = wordChars before ++ wordChars after := by
  rw [wordChars, List.splitOnP_append_cons _ _ hc, List.filter_append, wordChars, wordChars]

/-- Where there is no white space, there is one word. -/
theorem wordChars_of_forall {word : List Char} (hne : word ≠ [])
    (h : ∀ c ∈ word, isBlank c = false) : wordChars word = [word] := by
  rw [wordChars, List.splitOnP_eq_singleton h]
  simpa using hne

/-- White space in front of a word does not belong to it. -/
theorem IsWord.append_cons {cs word : List Char} (h : IsWord cs word) {c : Char}
    (hc : isBlank c = true) (before : List Char) : IsWord (before ++ c :: cs) word := by
  obtain ⟨hne, hblank, first, after, rfl, hfirst, hafter⟩ := h
  refine ⟨hne, hblank, before ++ c :: first, after, by simp, ?_, hafter⟩
  cases first using List.reverseRecOn with
  | nil => simpa using hc
  | append_singleton first last =>
    rw [← List.cons_append, ← List.append_assoc, List.getLast?_concat]
    rwa [List.getLast?_concat] at hfirst

theorem isWord_of_mem_wordChars (cs : List Char) {word : List Char} (h : word ∈ wordChars cs) :
    IsWord cs word := by
  -- the text is cut at its first white space, with at most one word before it
  have hcut := List.takeWhile_append_dropWhile (p := (! isBlank ·)) (l := cs)
  have hbefore : ∀ c ∈ cs.takeWhile (! isBlank ·), isBlank c = false := by
    intro c hc
    simpa using List.mem_takeWhile_imp hc
  generalize cs.takeWhile (! isBlank ·) = before at hcut hbefore
  have hword : word ∈ wordChars before → word = before := by
    intro hmem
    have hne : before ≠ [] := by
      rintro rfl
      cases hmem
    rw [wordChars_of_forall hne hbefore] at hmem
    exact List.mem_singleton.mp hmem
  have hne := ne_nil_of_mem_wordChars h
  have hblank := isBlank_of_mem_wordChars h
  cases hrest : cs.dropWhile (! isBlank ·) with
  | nil =>
    rw [hrest, List.append_nil] at hcut
    rw [← hcut] at h
    exact ⟨hne, hblank, [], [], by simp [hword h, hcut], by simp, by simp⟩
  | cons c after =>
    have hc : isBlank c = true := by
      have hhead := List.head?_dropWhile_not (! isBlank ·) cs
      rw [hrest] at hhead
      simpa using hhead
    rw [hrest] at hcut
    rw [← hcut, wordChars_append_cons hc, List.mem_append] at h
    obtain h | h := h
    · exact ⟨hne, hblank, [], c :: after, by simp [hword h, hcut], by simp, by simpa using hc⟩
    · have hlength : after.length < cs.length := by
        rw [← hcut, List.length_append, List.length_cons]
        omega
      rw [← hcut]
      exact (isWord_of_mem_wordChars after h).append_cons hc before
termination_by cs.length

/-- **Words.** The text is cut into its words. -/
theorem mem_wordChars_iff {cs word : List Char} : word ∈ wordChars cs ↔ IsWord cs word := by
  constructor
  · exact isWord_of_mem_wordChars cs
  · rintro ⟨hne, hblank, before, after, rfl, hbefore, hafter⟩
    have hright : word ∈ wordChars (word ++ after) := by
      cases after with
      | nil => simp [wordChars_of_forall hne hblank]
      | cons c after =>
        rw [wordChars_append_cons (hafter c rfl), wordChars_of_forall hne hblank]
        exact List.mem_cons_self
    cases before using List.reverseRecOn with
    | nil => exact hright
    | append_singleton before c =>
      have hc : isBlank c = true := hbefore c List.getLast?_concat
      rw [List.append_assoc, List.append_assoc, List.singleton_append, wordChars_append_cons hc]
      exact List.mem_append_right _ hright

end CssModel.Ascii
