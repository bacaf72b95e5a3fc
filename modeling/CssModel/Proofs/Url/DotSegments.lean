import CssModel.Proofs.Text.Words
import CssModel.Proofs.Url.Origin

/-!
# Removing dot segments

RFC 3986 removes dot segments by rewriting two buffers: in each round a prefix of the input is
dropped, is replaced by a slash, or is moved behind the output, and two dots take the last segment
off the output again. Here a path is cut into its segments instead, and a stack of segments is kept.

The two come to the same for every path that starts with a slash. The buffers then hold nothing but
segments, each with a slash in front: the input those that are left, the output those on the stack.
A round of the loop takes the first segment from the input, which is one step on the stack; only a
dot segment at the very end takes two rounds, since it leaves a slash, which is an empty segment.

## Main definitions

* `CssModel.Url.rewrite`, `CssModel.Url.rewriteAll`: the loop of RFC 3986, section 5.2.4
* `CssModel.Url.slashed`: segments with a slash in front of each

## Main results

* `CssModel.Url.rewrite_slashed`: a round of the loop, told by the first segment
* `CssModel.Url.keepSegments_eq_rewriteAll`
* `CssModel.Url.removeDotSegments_slashed`
* `CssModel.Url.removeDotSegments_of_noDots`
* `CssModel.Url.removeDotSegments_eq_rewriteAll`
-/

namespace CssModel.Url

/-! ### The two buffers -/

/-- The output without its last segment and the slash before it, if there is one. -/
def withoutLast (output : List Char) : List Char :=
  ((output.reverse.dropWhile (· ≠ '/')).drop 1).reverse

/-- One round of the loop on the input and the output, with the steps 2A to 2E of RFC 3986, section
5.2.4. -/
def rewrite (input output : List Char) : List Char × List Char :=
  -- A
  if ['.', '.', '/'] <+: input then (input.drop 3, output)
  else if ['.', '/'] <+: input then (input.drop 2, output)
  -- B
  else if ['/', '.', '/'] <+: input then ('/' :: input.drop 3, output)
  else if input = ['/', '.'] then (['/'], output)
  -- C
  else if ['/', '.', '.', '/'] <+: input then ('/' :: input.drop 4, withoutLast output)
  else if input = ['/', '.', '.'] then (['/'], withoutLast output)
  -- D
  else if input = ['.'] ∨ input = ['.', '.'] then ([], output)
  -- E: the first segment with the slash in front of it, if there is one
  else ((input.drop 1).dropWhile (· ≠ '/'),
    output ++ input.take 1 ++ (input.drop 1).takeWhile (· ≠ '/'))

theorem length_rewrite_lt {input : List Char} (h : input ≠ []) (output : List Char) :
    (rewrite input output).1.length < input.length := by
  have hpos : 0 < input.length := List.length_pos_iff.mpr h
  have hsuffix := List.length_dropWhile_le (fun c => decide (c ≠ '/')) (input.drop 1)
  rw [rewrite]
  split_ifs with hA hA' hB hB' hC hC'
  · have hlength := hA.length_le
    simp at hlength ⊢
    omega
  · have hlength := hA'.length_le
    simp at hlength ⊢
    omega
  · have hlength := hB.length_le
    simp at hlength ⊢
    omega
  · simp [hB']
  · have hlength := hC.length_le
    simp at hlength ⊢
    omega
  · simp [hC']
  · exact hpos
  · simp at hsuffix ⊢
    omega

/-- The output once the input is used up. -/
def rewriteAll (input output : List Char) : List Char :=
  if _ : input = [] then output
  else rewriteAll (rewrite input output).1 (rewrite input output).2
termination_by input.length
decreasing_by exact length_rewrite_lt ‹_› output

theorem rewriteAll_nil (output : List Char) : rewriteAll [] output = output := by
  rw [rewriteAll, dif_pos rfl]

theorem rewriteAll_of_ne {input : List Char} (h : input ≠ []) (output : List Char) :
    rewriteAll input output = rewriteAll (rewrite input output).1 (rewrite input output).2 := by
  rw [rewriteAll, dif_neg h]

/-! ### Segments -/

/-- The segments, each with a slash in front. -/
def slashed (segments : List (List Char)) : List Char :=
  segments.flatMap fun segment => '/' :: segment

/-- No segment holds a slash. -/
def AreSegments (segments : List (List Char)) : Prop :=
  ∀ segment ∈ segments, ∀ c ∈ segment, c ≠ '/'

section Segments

variable {segment : List Char} {segments kept : List (List Char)}

theorem slashed_cons (segment : List Char) (segments : List (List Char)) :
    slashed (segment :: segments) = '/' :: (segment ++ slashed segments) :=
  List.flatMap_cons

theorem slashed_concat (segments : List (List Char)) (segment : List Char) :
    slashed (segments ++ [segment]) = slashed segments ++ '/' :: segment := by
  simp [slashed]

theorem intercalate_cons (segment : List Char) (segments : List (List Char)) :
    List.intercalate ['/'] (segment :: segments) = segment ++ slashed segments := by
  induction segments generalizing segment with
  | nil => simp [slashed]
  | cons next segments ih =>
    rw [List.intercalate_cons_cons, ih, slashed_cons]
    simp

/-- A segment in front of others ends where the next slash is. -/
theorem append_slashed_cut (h : ∀ c ∈ segment, c ≠ '/') (segments : List (List Char)) :
    (segment ++ slashed segments).takeWhile (· ≠ '/') = segment ∧
      (segment ++ slashed segments).dropWhile (· ≠ '/') = slashed segments := by
  have hpos : ∀ c ∈ segment, decide (c ≠ '/') = true := by simpa using h
  rw [List.takeWhile_append_of_pos hpos, List.dropWhile_append_of_pos hpos]
  cases segments with
  | nil => simp [slashed]
  | cons next segments => simp [slashed_cons]

/-- A text without slashes, and a slash behind it, are found in front only if they are the first
segment and not the last. -/
theorem append_slash_isPrefix_iff (h : ∀ c ∈ segment, c ≠ '/') {text : List Char}
    (htext : ∀ c ∈ text, c ≠ '/') :
    text ++ ['/'] <+: segment ++ slashed segments ↔ segment = text ∧ segments ≠ [] := by
  constructor
  · rintro ⟨rest, hrest⟩
    have hcut := (append_slashed_cut h segments).1
    rw [← hrest, List.append_assoc, List.singleton_append, takeWhile_ne_append htext] at hcut
    subst hcut
    refine ⟨rfl, ?_⟩
    rintro rfl
    simp [slashed] at hrest
  · rintro ⟨rfl, hne⟩
    obtain ⟨next, rest, rfl⟩ := List.exists_cons_of_ne_nil hne
    exact ⟨next ++ slashed rest, by simp [slashed_cons]⟩

theorem append_slashed_eq_iff {text : List Char} (htext : ∀ c ∈ text, c ≠ '/') :
    segment ++ slashed segments = text ↔ segment = text ∧ segments = [] := by
  constructor
  · intro heq
    cases segments with
    | nil => exact ⟨by simpa [slashed] using heq, rfl⟩
    | cons next segments =>
      refine absurd rfl (htext '/' ?_)
      simp [← heq, slashed_cons]
  · rintro ⟨rfl, rfl⟩
    simp [slashed]

/-- The segments, or an empty one where there is none. -/
def orEmptySegment (segments : List (List Char)) : List (List Char) :=
  if segments = [] then [[]] else segments

/-- **A round of the loop takes the first segment.** -/
theorem rewrite_slashed (h : ∀ c ∈ segment, c ≠ '/') (segments : List (List Char))
    (output : List Char) :
    rewrite (slashed (segment :: segments)) output =
      if segment = ['.'] then (slashed (orEmptySegment segments), output)
      else if segment = ['.', '.'] then (slashed (orEmptySegment segments), withoutLast output)
      else (slashed segments, output ++ '/' :: segment) := by
  by_cases hone : segment = ['.']
  · subst hone
    cases segments with
    | nil => simp [rewrite, slashed, orEmptySegment]
    | cons next segments => simp [rewrite, slashed_cons, orEmptySegment]
  by_cases htwo : segment = ['.', '.']
  · subst htwo
    cases segments with
    | nil => simp [rewrite, slashed, orEmptySegment]
    | cons next segments => simp [rewrite, slashed_cons, orEmptySegment]
  · have hdot : ∀ c ∈ ['.'], c ≠ '/' := by simp
    have hdots : ∀ c ∈ ['.', '.'], c ≠ '/' := by simp
    have hB : ¬ ['.'] ++ ['/'] <+: segment ++ slashed segments := by
      rw [append_slash_isPrefix_iff h hdot]
      exact fun hand => hone hand.1
    have hB' : segment ++ slashed segments ≠ ['.'] := by
      rw [Ne, append_slashed_eq_iff hdot]
      exact fun hand => hone hand.1
    have hC : ¬ ['.', '.'] ++ ['/'] <+: segment ++ slashed segments := by
      rw [append_slash_isPrefix_iff h hdots]
      exact fun hand => htwo hand.1
    have hC' : segment ++ slashed segments ≠ ['.', '.'] := by
      rw [Ne, append_slashed_eq_iff hdots]
      exact fun hand => htwo hand.1
    have hE := append_slashed_cut h segments
    simp only [List.cons_append, List.nil_append, ne_eq, decide_not] at hB hC hE
    simp [rewrite, slashed_cons, hone, htwo, hB, hB', hC, hC', hE]

/-- Seen from its end, a path goes on with a slash behind its last segment. -/
theorem dropWhile_reverse_slashed_concat (h : ∀ c ∈ segment, c ≠ '/') :
    (slashed (kept ++ [segment])).reverse.dropWhile (· ≠ '/') = '/' :: (slashed kept).reverse := by
  have hsegment : ∀ c ∈ segment.reverse, decide (c ≠ '/') = true := by
    intro c hc
    simpa using h c (List.mem_reverse.mp hc)
  rw [slashed_concat, List.reverse_append, List.reverse_cons, List.append_assoc,
    List.dropWhile_append_of_pos hsegment]
  simp

theorem withoutLast_slashed (h : AreSegments kept) :
    withoutLast (slashed kept) = slashed kept.dropLast := by
  induction kept using List.reverseRecOn with
  | nil => rfl
  | append_singleton kept segment _ =>
    rw [withoutLast, dropWhile_reverse_slashed_concat (h segment (by simp)), List.dropLast_concat]
    simp

end Segments

/-! ### The stack of segments -/

section Stack

variable {segment : List Char} {segments kept : List (List Char)}

theorem slashed_ne_nil (segment : List Char) (segments : List (List Char)) :
    slashed (segment :: segments) ≠ [] := by
  simp [slashed_cons]

/-- What is kept after a dot segment: at the end an empty segment comes to it. -/
def keptAfterDots (kept : List (List Char)) (last : Bool) : List (List Char) :=
  if last then kept ++ [[]] else kept

theorem AreSegments.keptAfterDots (h : AreSegments kept) (last : Bool) :
    AreSegments (keptAfterDots kept last) := by
  cases last with
  | false => exact h
  | true =>
    intro s hs
    obtain hs | hs := List.mem_append.mp hs
    · exact h s hs
    · simp [List.mem_singleton.mp hs]

/-- A dot segment at the end takes a second round, which moves a slash to the output. -/
theorem rewriteAll_orEmptySegment (segments kept : List (List Char)) :
    rewriteAll (slashed (orEmptySegment segments)) (slashed kept) =
      rewriteAll (slashed segments) (slashed (keptAfterDots kept segments.isEmpty)) := by
  cases segments with
  | nil =>
    rw [orEmptySegment, if_pos rfl, rewriteAll_of_ne (slashed_ne_nil _ _),
      rewrite_slashed (by simp)]
    simp [keptAfterDots, slashed_concat]
  | cons next segments => simp [orEmptySegment, keptAfterDots]

/-- A step on a stack that holds the empty segment in front of the first slash. -/
theorem addSegment_cons (kept : List (List Char)) (segment : List Char) (last : Bool) :
    addSegment ([] :: kept) segment last = [] ::
      if segment = ['.'] then keptAfterDots kept last
      else if segment = ['.', '.'] then keptAfterDots kept.dropLast last
      else kept ++ [segment] := by
  have hshorter : (if 1 < ([] :: kept).length then ([] :: kept).dropLast else [] :: kept) =
      [] :: kept.dropLast := by
    cases kept <;> simp
  rw [addSegment, hshorter, keptAfterDots, keptAfterDots]
  split_ifs <;> rfl

/-- **A step on the stack does what the rounds do that take the same segment.** -/
theorem rewriteAll_addSegment (hsegment : ∀ c ∈ segment, c ≠ '/') (hkept : AreSegments kept)
    (segments : List (List Char)) :
    ∃ kept', addSegment ([] :: kept) segment segments.isEmpty = [] :: kept' ∧
      AreSegments kept' ∧ (segments = [] → kept' ≠ []) ∧
      rewriteAll (slashed (segment :: segments)) (slashed kept) =
        rewriteAll (slashed segments) (slashed kept') := by
  have hdropLast : AreSegments kept.dropLast := fun s hs => hkept s (List.mem_of_mem_dropLast hs)
  have hne : ∀ stack, segments = [] → keptAfterDots stack segments.isEmpty ≠ [] := by
    rintro stack rfl
    simp [keptAfterDots]
  rw [addSegment_cons, rewriteAll_of_ne (slashed_ne_nil _ _), rewrite_slashed hsegment]
  refine ⟨_, rfl, ?_⟩
  by_cases hone : segment = ['.']
  · rw [if_pos hone, if_pos hone]
    exact ⟨hkept.keptAfterDots _, hne _, rewriteAll_orEmptySegment segments kept⟩
  rw [if_neg hone, if_neg hone]
  by_cases htwo : segment = ['.', '.']
  · rw [if_pos htwo, if_pos htwo, withoutLast_slashed hkept]
    exact ⟨hdropLast.keptAfterDots _, hne _, rewriteAll_orEmptySegment segments kept.dropLast⟩
  · rw [if_neg htwo, if_neg htwo, slashed_concat]
    refine ⟨fun s hs => ?_, by simp, rfl⟩
    obtain hs | hs := List.mem_append.mp hs
    · exact hkept s hs
    · rwa [List.mem_singleton.mp hs]

/-- **The loop leaves the segments that are kept.** The first segment kept is the empty one in front
of the first slash, and there is always another one. -/
theorem keepSegments_eq_rewriteAll (hne : segments ≠ [])
    (hsegments : AreSegments segments) (hkept : AreSegments kept) :
    ∃ kept', kept' ≠ [] ∧ keepSegments ([] :: kept) segments = [] :: kept' ∧
      rewriteAll (slashed segments) (slashed kept) = slashed kept' := by
  induction segments generalizing kept with
  | nil => exact absurd rfl hne
  | cons segment segments ih =>
    obtain ⟨hsegment, hrest⟩ := List.forall_mem_cons.mp hsegments
    obtain ⟨kept', hadd, hkept', hlast, hround⟩ := rewriteAll_addSegment hsegment hkept segments
    rw [keepSegments, hadd, hround]
    cases segments with
    | nil => exact ⟨kept', hlast rfl, rfl, rewriteAll_nil _⟩
    | cons next segments => exact ih (by simp) hrest hkept'

end Stack

/-! ### Paths -/

/-- What may stand behind a path: nothing, a query or a fragment. -/
def FollowsPath (suffix : List Char) : Prop :=
  ∀ c ∈ suffix.head?, endsPath c = true

theorem cut_append_suffix {path suffix : List Char} (hpath : ∀ c ∈ path, endsPath c = false)
    (hsuffix : FollowsPath suffix) :
    (path ++ suffix).takeWhile (! endsPath ·) = path ∧
      (path ++ suffix).dropWhile (! endsPath ·) = suffix := by
  have hpos : ∀ c ∈ path, (! endsPath c) = true := by simpa using hpath
  rw [List.takeWhile_append_of_pos hpos, List.dropWhile_append_of_pos hpos]
  cases suffix with
  | nil => simp
  | cons c suffix => simp [hsuffix c rfl]

theorem areSegments_splitOn (path : List Char) : AreSegments (path.splitOn '/') := by
  intro segment hsegment c hc
  rw [List.splitOn_eq_splitOnP] at hsegment
  simpa using Ascii.eq_false_of_mem_splitOnP segment hsegment c hc

theorem slashed_splitOn (path : List Char) : slashed (path.splitOn '/') = '/' :: path := by
  obtain ⟨first, others, hsplit⟩ := List.exists_cons_of_ne_nil (List.splitOn_ne_nil '/' path)
  have hjoin : List.intercalate ['/'] (path.splitOn '/') = path := List.intercalate_splitOn '/'
  rw [hsplit, intercalate_cons] at hjoin
  rw [hsplit, slashed_cons, hjoin]

theorem splitOn_slashed {segments : List (List Char)} (h : AreSegments segments) :
    (slashed segments).splitOn '/' = [] :: segments := by
  have hslash : ∀ segment ∈ [] :: segments, '/' ∉ segment := by
    intro segment hmem hslash
    obtain rfl | hmem := List.mem_cons.mp hmem
    · cases hslash
    · exact h segment hmem '/' hslash rfl
  have hsplit := List.splitOn_intercalate '/' hslash (by simp)
  rwa [intercalate_cons, List.nil_append] at hsplit

theorem keepSegments_of_noDots {segments kept : List (List Char)}
    (h : ∀ segment ∈ segments, segment ≠ ['.'] ∧ segment ≠ ['.', '.']) :
    keepSegments kept segments = kept ++ segments := by
  induction segments generalizing kept with
  | nil => exact (List.append_nil kept).symm
  | cons segment segments ih =>
    obtain ⟨⟨hone, htwo⟩, hrest⟩ := List.forall_mem_cons.mp h
    rw [keepSegments, ih hrest, addSegment, if_neg hone, if_neg htwo, List.append_assoc]
    rfl

section Suffix

variable {segments : List (List Char)} {suffix : List Char} (hne : segments ≠ [])
  (hsegments : AreSegments segments) (hpath : ∀ c ∈ slashed segments, endsPath c = false)
  (hsuffix : FollowsPath suffix)

include hne hsegments hpath hsuffix

/-- Removing dots leaves the segments that are kept, and what follows the path. -/
theorem removeDotSegments_eq {kept : List (List Char)} (hkept : kept ≠ [])
    (hkeep : keepSegments [[]] segments = [] :: kept) :
    removeDotSegments (slashed segments ++ suffix) = slashed kept ++ suffix := by
  obtain ⟨hbefore, hafter⟩ := cut_append_suffix hpath hsuffix
  obtain ⟨first, others, rfl⟩ := List.exists_cons_of_ne_nil hkept
  have hfirst : keepSegments [] ([] :: segments) = keepSegments [[]] segments := by
    obtain ⟨next, rest, rfl⟩ := List.exists_cons_of_ne_nil hne
    rfl
  rw [removeDotSegments, hbefore, hafter, splitOn_slashed hsegments, hfirst, hkeep,
    intercalate_cons, List.nil_append, if_pos (by simp [slashed_cons])]

/-- **A path with a slash in front is left as the loop leaves it**, and what follows the path is
left as it is. -/
theorem removeDotSegments_slashed :
    removeDotSegments (slashed segments ++ suffix) =
      rewriteAll (slashed segments) [] ++ suffix := by
  have hnil : AreSegments [] := fun _ h => by cases h
  obtain ⟨kept, hkept, hkeep, hloop⟩ := keepSegments_eq_rewriteAll hne hsegments hnil
  rw [removeDotSegments_eq hne hsegments hpath hsuffix hkept hkeep, ← hloop]
  rfl

/-- A path without dot segments is left as it is. -/
theorem removeDotSegments_of_noDots
    (hdots : ∀ segment ∈ segments, segment ≠ ['.'] ∧ segment ≠ ['.', '.']) :
    removeDotSegments (slashed segments ++ suffix) = slashed segments ++ suffix :=
  removeDotSegments_eq hne hsegments hpath hsuffix hne (keepSegments_of_noDots hdots)

end Suffix

/-- **Removing dot segments is what the loop does.** A path that starts with a slash is left as the
loop of RFC 3986 leaves it, whatever its segments are, and a query or a fragment behind it is left
as it is. -/
theorem removeDotSegments_eq_rewriteAll {path suffix : List Char}
    (hslash : path.head? = some '/') (hpath : ∀ c ∈ path, endsPath c = false)
    (hsuffix : FollowsPath suffix) :
    removeDotSegments (path ++ suffix) = rewriteAll path [] ++ suffix := by
  obtain ⟨rest, rfl⟩ := List.head?_eq_some_iff.mp hslash
  have hslashed : slashed (rest.splitOn '/') = '/' :: rest := slashed_splitOn rest
  rw [← hslashed] at hpath ⊢
  exact removeDotSegments_slashed (List.splitOn_ne_nil '/' rest) (areSegments_splitOn rest) hpath
    hsuffix

/-- Dots over the root, an empty segment, and dots at the end; the dots of the query stay. -/
theorem removeDotSegments_eq_rewriteAll_over_root :
    "/../a//./b/../..".toList.head? = some '/' ∧
      (∀ c ∈ "/../a//./b/../..".toList, endsPath c = false) ∧ FollowsPath "?/./..".toList ∧
      removeDotSegments ("/../a//./b/../..".toList ++ "?/./..".toList) = "/a/?/./..".toList ∧
      rewriteAll "/../a//./b/../..".toList [] = "/a/".toList := by
  have hslash : "/../a//./b/../..".toList.head? = some '/' := by decide
  have hpath : ∀ c ∈ "/../a//./b/../..".toList, endsPath c = false := by simp [endsPath]
  have hsuffix : FollowsPath "?/./..".toList := by
    rintro _ ⟨⟩
    rfl
  have hremoved : removeDotSegments ("/../a//./b/../..".toList ++ "?/./..".toList) =
      "/a/".toList ++ "?/./..".toList := rfl
  have hloop := removeDotSegments_eq_rewriteAll hslash hpath hsuffix
  rw [hremoved] at hloop
  exact ⟨hslash, hpath, hsuffix, hremoved, (List.append_cancel_right hloop).symm⟩

end CssModel.Url
