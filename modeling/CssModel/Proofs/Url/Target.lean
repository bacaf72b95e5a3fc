import CssModel.Proofs.Url.DotSegments

/-!
# Target references

RFC 3986 takes base and reference apart into five components and chooses each component of the
target from one of the two. `Url.resolve` never takes a reference apart: it looks at the first
character, puts the reference behind a part of the base, and leaves the query and the fragment to
the end. A reference that has no scheme and no authority is its path with a query and a fragment
behind it, so the choice between the components is a choice by that character, and where the
reference has a path, the two come to the same.

They differ where it has none. The transformation then takes the path of the base as it is. For a
query or a fragment `Url.resolve` takes the path of the base too, but one that has a slash if the
base has no path at all. An empty reference is not told apart from a relative path: it goes beside
the last segment of the base, which is lost unless it is empty.

## Main definitions

* `CssModel.Url.Reference`: a reference taken apart, with `ofChars` and `chars`
* `CssModel.Url.Reference.target`: the transformation of RFC 3986, section 5.2.2
* `CssModel.Url.IsBase`: the parts of an address without query, fragment and dot segments

## Main results

* `CssModel.Url.Reference.chars_ofChars`: taking apart loses nothing
* `CssModel.Url.removeDotSegments_join_of_path`, `removeDotSegments_join_of_suffix`,
  `removeDotSegments_join_nil`: one lemma for each kind of reference
* `CssModel.Url.resolve_eq_target_iff`
-/

namespace CssModel.Url

/-! ### References taken apart -/

/-- Whether the authority ends here. -/
def endsAuthority (c : Char) : Bool :=
  c == '/' || endsPath c

/-- The components of a reference. One that is empty is not the same as one that is not there. -/
structure Reference where
  scheme : Option (List Char)
  authority : Option (List Char)
  path : List Char
  query : Option (List Char)
  fragment : Option (List Char)
  deriving DecidableEq, Repr

namespace Reference

/-- The scheme, and what follows its colon. -/
def cutScheme (text : List Char) : Option (List Char) × List Char :=
  if hasScheme text then (some (text.takeWhile (· ≠ ':')), (text.dropWhile (· ≠ ':')).tail)
  else (none, text)

/-- The authority behind two slashes, and what follows it. -/
def cutAuthority : List Char → Option (List Char) × List Char
  | '/' :: '/' :: network =>
    (some (network.takeWhile (! endsAuthority ·)), network.dropWhile (! endsAuthority ·))
  | text => (none, text)

/-- The query in what follows a path. -/
def query? : List Char → Option (List Char)
  | '?' :: rest => some (rest.takeWhile (· ≠ '#'))
  | _ => none

/-- The fragment in what follows a path. -/
def fragment? (suffix : List Char) : Option (List Char) :=
  (suffix.dropWhile (· ≠ '#')).tail?

/-- The components of a text, RFC 3986, appendix B. -/
def ofChars (text : List Char) : Reference :=
  let (scheme, hierarchy) := cutScheme text
  let (authority, rest) := cutAuthority hierarchy
  let suffix := rest.dropWhile (! endsPath ·)
  ⟨scheme, authority, rest.takeWhile (! endsPath ·), query? suffix, fragment? suffix⟩

/-- Query and fragment, each behind the character that announces it. -/
def suffix (r : Reference) : List Char :=
  r.query.elim [] ('?' :: ·) ++ r.fragment.elim [] ('#' :: ·)

/-- The components put together, RFC 3986, section 5.3. -/
def chars (r : Reference) : List Char :=
  r.scheme.elim [] (· ++ [':']) ++ (r.authority.elim [] ('/' :: '/' :: ·) ++ (r.path ++ r.suffix))

/-- A relative path beside the last segment of the base, RFC 3986, section 5.2.3. -/
def mergedPath (base : Reference) (path : List Char) : List Char :=
  if base.authority.isSome ∧ base.path = [] then '/' :: path
  else (base.path.reverse.dropWhile (· ≠ '/')).reverse ++ path

/-- The target of a reference, RFC 3986, section 5.2.2. -/
def target (base r : Reference) : Reference :=
  if r.scheme.isSome then { r with path := rewriteAll r.path [] }
  else if r.authority.isSome then
    { r with scheme := base.scheme, path := rewriteAll r.path [] }
  else if r.path = [] then { base with query := r.query.or base.query, fragment := r.fragment }
  else if r.path.head? = some '/' then
    ⟨base.scheme, base.authority, rewriteAll r.path [], r.query, r.fragment⟩
  else
    ⟨base.scheme, base.authority, rewriteAll (mergedPath base r.path) [], r.query, r.fragment⟩

/-! ### Taking apart loses nothing -/

theorem followsPath_dropWhile (text : List Char) :
    FollowsPath (text.dropWhile (! endsPath ·)) := by
  intro c hc
  have hnot := List.head?_dropWhile_not (! endsPath ·) text
  rw [Option.mem_def.mp hc] at hnot
  simpa using hnot

/-- Query and fragment together are what follows the path. -/
theorem query?_append_fragment? {suffix : List Char} (h : FollowsPath suffix) :
    (query? suffix).elim [] ('?' :: ·) ++ (fragment? suffix).elim [] ('#' :: ·) = suffix := by
  have hfragment : ∀ rest : List Char,
      rest.takeWhile (· ≠ '#') ++ (fragment? rest).elim [] ('#' :: ·) = rest := by
    intro rest
    have hcut := List.takeWhile_append_dropWhile (p := fun c => decide (c ≠ '#')) (l := rest)
    have hhash := List.head?_dropWhile_not (fun c => decide (c ≠ '#')) rest
    rw [fragment?]
    cases hrest : rest.dropWhile (· ≠ '#') with
    | nil =>
      rw [hrest] at hcut
      exact hcut
    | cons c fragment =>
      rw [hrest] at hcut hhash
      obtain rfl : c = '#' := by simpa using hhash
      exact hcut
  cases suffix with
  | nil => rfl
  | cons c rest =>
    have hends := h c rfl
    rw [endsPath, Bool.or_eq_true, beq_iff_eq, beq_iff_eq] at hends
    obtain rfl | rfl := hends
    · have hquestion : fragment? ('?' :: rest) = fragment? rest := by simp [fragment?]
      rw [hquestion, query?, Option.elim_some, List.cons_append, hfragment rest]
    · simp [query?, fragment?]

theorem cutAuthority_append (text : List Char) :
    (cutAuthority text).1.elim [] ('/' :: '/' :: ·) ++ (cutAuthority text).2 = text := by
  rw [cutAuthority.eq_def]
  split
  · simp [List.takeWhile_append_dropWhile]
  · rfl

theorem cutScheme_append (text : List Char) :
    (cutScheme text).1.elim [] (· ++ [':']) ++ (cutScheme text).2 = text := by
  rw [cutScheme]
  split
  · next h =>
    rw [hasScheme, Bool.and_eq_true, List.contains_iff_mem] at h
    obtain ⟨front, rest, rfl, hfront⟩ := List.eq_append_cons_of_mem h.1
    have hne : ∀ c ∈ front, c ≠ ':' := by
      rintro c hc rfl
      exact hfront hc
    have hpos : ∀ c ∈ front, decide (c ≠ ':') = true := by simpa using hne
    rw [takeWhile_ne_append hne, List.dropWhile_append_of_pos hpos]
    simp
  · rfl

/-- A scheme is cut off at the first colon. -/
theorem cutScheme_of_isScheme {scheme : List Char} (h : isScheme scheme = true)
    (rest : List Char) : cutScheme (scheme ++ ':' :: rest) = (some scheme, rest) := by
  have hne := ne_colon_of_isScheme h
  have hcolon : ∀ c ∈ scheme, decide (c ≠ ':') = true := by simpa using hne
  rw [cutScheme, hasScheme_append h, if_pos rfl, takeWhile_ne_append hne,
    List.dropWhile_append_of_pos hcolon]
  simp

/-- The components, once scheme and authority are cut off. -/
theorem ofChars_of_cut {text hierarchy rest : List Char} {scheme authority : Option (List Char)}
    (hscheme : cutScheme text = (scheme, hierarchy))
    (hauthority : cutAuthority hierarchy = (authority, rest)) :
    ofChars text =
      ⟨scheme, authority, rest.takeWhile (! endsPath ·), query? (rest.dropWhile (! endsPath ·)),
        fragment? (rest.dropWhile (! endsPath ·))⟩ := by
  simp only [ofChars, hscheme, hauthority]

theorem suffix_ofChars (text : List Char) :
    (ofChars text).path ++ (ofChars text).suffix = (cutAuthority (cutScheme text).2).2 := by
  have hsuffix := query?_append_fragment?
    (followsPath_dropWhile (cutAuthority (cutScheme text).2).2)
  rw [ofChars, suffix, hsuffix]
  exact List.takeWhile_append_dropWhile

/-- **A reference taken apart and put together again is the same text.** -/
theorem chars_ofChars (text : List Char) : (ofChars text).chars = text := by
  rw [chars, suffix_ofChars]
  exact (congrArg _ (cutAuthority_append _)).trans (cutScheme_append text)

theorem followsPath_suffix (text : List Char) : FollowsPath (ofChars text).suffix := by
  rw [ofChars, suffix, query?_append_fragment? (followsPath_dropWhile _)]
  exact followsPath_dropWhile _

theorem endsPath_of_mem_path (text : List Char) :
    ∀ c ∈ (ofChars text).path, endsPath c = false := by
  intro c hc
  simpa using List.mem_takeWhile_imp hc

/-- Without a scheme and an authority a reference is its path and what follows it. -/
theorem ofChars_relative {href : List Char} (hhref : hasScheme href = false)
    (hnetwork : ¬ ['/', '/'] <+: href) :
    (ofChars href).scheme = none ∧ (ofChars href).authority = none ∧
      (ofChars href).path ++ (ofChars href).suffix = href := by
  have hscheme : cutScheme href = (none, href) := by simp [cutScheme, hhref]
  have hauthority : cutAuthority href = (none, href) := by
    rw [cutAuthority.eq_def]
    split
    · next network => exact absurd ⟨network, rfl⟩ hnetwork
    · rfl
  have hcut := ofChars_of_cut hscheme hauthority
  refine ⟨by rw [hcut], by rw [hcut], ?_⟩
  rw [suffix_ofChars, hscheme, hauthority]

/-! ### Choosing the components -/

/-- The path of the target of a reference that is its path and what follows it. -/
def targetPath (base : Reference) (path : List Char) : List Char :=
  if path = [] then base.path
  else rewriteAll (if path.head? = some '/' then path else mergedPath base path) []

/-- Against a base without a query only the path is chosen. -/
theorem target_relative {base r : Reference} (hquery : base.query = none)
    (hscheme : r.scheme = none) (hauthority : r.authority = none) :
    target base r =
      ⟨base.scheme, base.authority, targetPath base r.path, r.query, r.fragment⟩ := by
  rw [target, targetPath, hscheme, hauthority, hquery]
  simp only [Option.isSome_none, Bool.false_eq_true, if_false, Option.or_none]
  split_ifs <;> rfl

/-- The last segment of the base makes room for the path. -/
theorem mergedPath_slashed {base : Reference} {segments : List (List Char)}
    (hauthority : base.authority.isSome) (hpath : base.path = slashed segments)
    (h : AreSegments segments) (path : List Char) :
    mergedPath base path = slashed segments.dropLast ++ '/' :: path := by
  rw [mergedPath, hpath]
  cases segments using List.reverseRecOn with
  | nil => simp [hauthority, slashed]
  | append_singleton segments segment =>
    rw [dropWhile_reverse_slashed_concat (h segment (by simp)), List.dropLast_concat,
      if_neg (by simp [slashed_concat])]
    simp

end Reference

/-! ### Bases -/

/-- The parts of an address without query and fragment, whose path is empty or starts with a slash
and has no dot segments. -/
structure IsBase (scheme authority path : List Char) : Prop where
  isScheme : isScheme scheme = true
  inAuthority : ∀ c ∈ authority, endsAuthority c = false
  rooted : path = [] ∨ path.head? = some '/'
  inPath : ∀ c ∈ path, endsPath c = false
  noDots : ∀ segment ∈ path.splitOn '/', segment ≠ ['.'] ∧ segment ≠ ['.', '.']

/-- A segment that keeps its place in a path. -/
structure IsPlain (segment : List Char) : Prop where
  noSlash : ∀ c ∈ segment, c ≠ '/'
  inPath : ∀ c ∈ segment, endsPath c = false
  noDots : segment ≠ ['.'] ∧ segment ≠ ['.', '.']

theorem isPlain_nil : IsPlain [] :=
  ⟨by simp, by simp, by simp⟩

theorem inPath_slashed {segments : List (List Char)}
    (h : ∀ segment ∈ segments, ∀ c ∈ segment, endsPath c = false) :
    ∀ c ∈ slashed segments, endsPath c = false := by
  intro c hc
  obtain ⟨segment, hsegment, hc⟩ := List.mem_flatMap.mp hc
  obtain rfl | hc := List.mem_cons.mp hc
  · rfl
  · exact h segment hsegment c hc

/-- Plain segments are left as they are. -/
theorem removeDotSegments_of_isPlain {segments : List (List Char)} {suffix : List Char}
    (hne : segments ≠ []) (hplain : ∀ segment ∈ segments, IsPlain segment)
    (hsuffix : FollowsPath suffix) :
    removeDotSegments (slashed segments ++ suffix) = slashed segments ++ suffix :=
  removeDotSegments_of_noDots hne (fun segment h => (hplain segment h).noSlash)
    (inPath_slashed fun segment h => (hplain segment h).inPath) hsuffix
    fun segment h => (hplain segment h).noDots

/-- Behind plain segments the segments of any path are cleared of dots as the loop does it. -/
theorem removeDotSegments_append_slash {front : List (List Char)} {path suffix : List Char}
    (hfront : ∀ segment ∈ front, IsPlain segment) (hpath : ∀ c ∈ path, endsPath c = false)
    (hsuffix : FollowsPath suffix) :
    removeDotSegments (slashed front ++ '/' :: path ++ suffix) =
      rewriteAll (slashed front ++ '/' :: path) [] ++ suffix := by
  -- only the segments in front are plain; those of the path may be dots or empty
  have hjoined : slashed (front ++ path.splitOn '/') = slashed front ++ '/' :: path := by
    rw [slashed, List.flatMap_append, ← slashed, ← slashed, slashed_splitOn]
  have hsegments : AreSegments (front ++ path.splitOn '/') := by
    intro segment h
    obtain h | h := List.mem_append.mp h
    · exact (hfront segment h).noSlash
    · exact areSegments_splitOn path segment h
  have hends : ∀ c ∈ slashed (front ++ path.splitOn '/'), endsPath c = false := by
    rw [hjoined]
    intro c hc
    obtain hc | hc := List.mem_append.mp hc
    · exact inPath_slashed (fun segment h => (hfront segment h).inPath) c hc
    · obtain rfl | hc := List.mem_cons.mp hc
      · rfl
      · exact hpath c hc
  have hne : front ++ path.splitOn '/' ≠ [] := by simp [List.splitOn_ne_nil]
  rw [← hjoined, removeDotSegments_slashed hne hsegments hends hsuffix]

theorem isPlain_of_mem_orEmptySegment {segments : List (List Char)}
    (hplain : ∀ segment ∈ segments, IsPlain segment) :
    ∀ segment ∈ orEmptySegment segments, IsPlain segment := by
  rw [orEmptySegment]
  split
  · simpa using isPlain_nil
  · exact hplain

theorem dropLast_orEmptySegment (segments : List (List Char)) :
    (orEmptySegment segments).dropLast = segments.dropLast := by
  cases segments <;> rfl

section Address

variable {scheme authority path : List Char}

/-- The path of a base is its segments, each with a slash in front. -/
theorem IsBase.exists_segments (h : IsBase scheme authority path) :
    ∃ segments, path = slashed segments ∧ ∀ segment ∈ segments, IsPlain segment := by
  obtain rfl | hslash := h.rooted
  · exact ⟨[], rfl, by simp⟩
  · obtain ⟨rest, rfl⟩ := List.head?_eq_some_iff.mp hslash
    have hsegments := areSegments_splitOn rest
    have hpath := slashed_splitOn rest
    refine ⟨rest.splitOn '/', hpath.symm, fun segment hsegment => ?_⟩
    refine ⟨hsegments segment hsegment, fun c hc => h.inPath c ?_, h.noDots segment ?_⟩
    · rw [← hpath]
      exact List.mem_flatMap.mpr ⟨segment, hsegment, List.mem_cons_of_mem _ hc⟩
    · rw [← hpath, splitOn_slashed hsegments]
      exact List.mem_cons_of_mem _ hsegment

/-- Taken apart for the transformation, a base gives its parts. -/
theorem IsBase.reference_ofChars (h : IsBase scheme authority path) :
    Reference.ofChars (scheme ++ ':' :: '/' :: '/' :: (authority ++ path)) =
      ⟨some scheme, some authority, path, none, none⟩ := by
  have hscheme := Reference.cutScheme_of_isScheme h.isScheme ('/' :: '/' :: (authority ++ path))
  have hauthority : Reference.cutAuthority ('/' :: '/' :: (authority ++ path)) =
      (some authority, path) := by
    have hpos : ∀ c ∈ authority, (! endsAuthority c) = true := by simpa using h.inAuthority
    rw [Reference.cutAuthority, List.takeWhile_append_of_pos hpos,
      List.dropWhile_append_of_pos hpos]
    obtain rfl | hslash := h.rooted
    · simp
    · obtain ⟨rest, rfl⟩ := List.head?_eq_some_iff.mp hslash
      simp [endsAuthority]
  have hpath : ∀ c ∈ path, (! endsPath c) = true := by simpa using h.inPath
  rw [Reference.ofChars_of_cut hscheme hauthority]
  simp only [List.takeWhile_eq_self_iff.mpr hpath, List.dropWhile_eq_nil_iff.mpr hpath]
  rfl

/-- Taken apart for `resolve`, a base without a path gets a slash. -/
theorem IsBase.ofChars_eq {segments : List (List Char)}
    (h : IsBase scheme authority (slashed segments)) :
    Base.ofChars (scheme ++ ':' :: '/' :: '/' :: (authority ++ slashed segments)) =
      ⟨scheme, authority, slashed (orEmptySegment segments)⟩ := by
  have hslash : ∀ c ∈ authority, decide (c ≠ '/') = true := by
    intro c hc
    have hends := h.inAuthority c hc
    rw [endsAuthority, Bool.or_eq_false_iff] at hends
    simpa using hends.1
  rw [Base.ofChars, splitScheme?_append (ne_colon_of_isScheme h.isScheme), Option.getD_some]
  simp only [List.takeWhile_append_of_pos hslash, List.dropWhile_append_of_pos hslash]
  cases segments with
  | nil => simp [slashed, orEmptySegment]
  | cons segment segments => simp [slashed_cons, orEmptySegment]

end Address

/-! ### Joining -/

section Join

variable {base : Base} {segments : List (List Char)}
  (hplain : ∀ segment ∈ segments, IsPlain segment)
  (hbase : base.path = slashed (orEmptySegment segments))

include hplain hbase

theorem directory_eq_slashed : base.directory = slashed segments.dropLast := by
  have hsegments : AreSegments (orEmptySegment segments) := fun segment h =>
    (isPlain_of_mem_orEmptySegment hplain segment h).noSlash
  have hdirectory : base.directory = withoutLast base.path := rfl
  rw [hdirectory, hbase, withoutLast_slashed hsegments, dropLast_orEmptySegment]

/-- With a path of its own, a reference gets it cleared of dots. -/
theorem removeDotSegments_join_of_path {path suffix : List Char} (hne : path ≠ [])
    (hpath : ∀ c ∈ path, endsPath c = false) (hsuffix : FollowsPath suffix) :
    removeDotSegments (base.join (path ++ suffix)) =
      rewriteAll (if path.head? = some '/' then path
        else slashed segments.dropLast ++ '/' :: path) [] ++ suffix := by
  obtain ⟨first, rest, rfl⟩ := List.exists_cons_of_ne_nil hne
  obtain ⟨hfirst, hrest⟩ := List.forall_mem_cons.mp hpath
  by_cases hslash : first = '/'
  · subst hslash
    have hplace : base.join ('/' :: rest ++ suffix) = slashed [] ++ '/' :: rest ++ suffix := by
      simp [Base.join, slashed]
    rw [hplace, removeDotSegments_append_slash (by simp) hrest hsuffix, List.head?_cons,
      if_pos rfl]
    rfl
  · have hdirectory : ∀ segment ∈ segments.dropLast, IsPlain segment := fun segment h =>
      hplain segment (List.mem_of_mem_dropLast h)
    have hplace : base.join (first :: rest ++ suffix) =
        slashed segments.dropLast ++ '/' :: first :: rest ++ suffix := by
      rw [endsPath, Bool.or_eq_false_iff, beq_eq_false_iff_ne, beq_eq_false_iff_ne] at hfirst
      simp [Base.join, hslash, hfirst, directory_eq_slashed hplain hbase]
    rw [hplace, removeDotSegments_append_slash hdirectory hpath hsuffix,
      if_neg (by simpa using hslash)]

/-- A query or a fragment follows the path of the base. -/
theorem removeDotSegments_join_of_suffix {suffix : List Char} (hne : suffix ≠ [])
    (hsuffix : FollowsPath suffix) :
    removeDotSegments (base.join suffix) = slashed (orEmptySegment segments) ++ suffix := by
  obtain ⟨first, rest, rfl⟩ := List.exists_cons_of_ne_nil hne
  have hends := hsuffix first rfl
  have hplace : base.join (first :: rest) = base.path ++ first :: rest := by
    rw [endsPath, Bool.or_eq_true, beq_iff_eq, beq_iff_eq] at hends
    obtain rfl | rfl := hends <;> simp [Base.join]
  rw [hplace, hbase, removeDotSegments_of_isPlain _ (isPlain_of_mem_orEmptySegment hplain) hsuffix]
  cases segments <;> simp [orEmptySegment]

/-- An empty reference leaves the directory of the base. -/
theorem removeDotSegments_join_nil :
    removeDotSegments (base.join []) = slashed segments.dropLast ++ ['/'] := by
  have hdirectory : ∀ segment ∈ segments.dropLast ++ [[]], IsPlain segment := by
    intro segment h
    obtain h | h := List.mem_append.mp h
    · exact hplain segment (List.mem_of_mem_dropLast h)
    · rw [List.mem_singleton.mp h]
      exact isPlain_nil
  have hplace : base.join [] = slashed (segments.dropLast ++ [[]]) ++ [] := by
    simp [Base.join, directory_eq_slashed hplain hbase, slashed_concat]
  rw [hplace, removeDotSegments_of_isPlain (by simp) hdirectory (by simp [FollowsPath]),
    List.append_nil, slashed_concat]

end Join

/-! ### Target references -/

section Relative

variable {scheme authority href : List Char} {segments : List (List Char)}
  (hbase : IsBase scheme authority (slashed segments)) (hhref : hasScheme href = false)
  (hnetwork : ¬ ['/', '/'] <+: href)

include hbase hhref hnetwork

theorem resolveFrom_relative :
    resolveFrom (Base.ofChars (scheme ++ ':' :: '/' :: '/' :: (authority ++ slashed segments)))
        href =
      scheme ++ ':' :: '/' :: '/' :: (authority ++ removeDotSegments
        (Base.join ⟨scheme, authority, slashed (orEmptySegment segments)⟩ href)) := by
  rw [hbase.ofChars_eq, resolveFrom_of_relative hhref hnetwork,
    origin_of_scheme (ne_nil_of_isScheme hbase.isScheme), List.append_assoc]
  rfl

theorem chars_target_relative :
    (Reference.target
        (Reference.ofChars (scheme ++ ':' :: '/' :: '/' :: (authority ++ slashed segments)))
        (Reference.ofChars href)).chars =
      scheme ++ ':' :: '/' :: '/' :: (authority ++
        (Reference.targetPath ⟨some scheme, some authority, slashed segments, none, none⟩
          (Reference.ofChars href).path ++ (Reference.ofChars href).suffix)) := by
  obtain ⟨hscheme, hauthority, -⟩ := Reference.ofChars_relative hhref hnetwork
  rw [hbase.reference_ofChars, Reference.target_relative rfl hscheme hauthority]
  simp [Reference.chars, Reference.suffix]

/-- The paths of the two decide. -/
theorem resolveFrom_eq_target_iff_path :
    resolveFrom (Base.ofChars (scheme ++ ':' :: '/' :: '/' :: (authority ++ slashed segments)))
        href =
      (Reference.target
        (Reference.ofChars (scheme ++ ':' :: '/' :: '/' :: (authority ++ slashed segments)))
        (Reference.ofChars href)).chars ↔
    removeDotSegments (Base.join ⟨scheme, authority, slashed (orEmptySegment segments)⟩ href) =
      Reference.targetPath ⟨some scheme, some authority, slashed segments, none, none⟩
        (Reference.ofChars href).path ++ (Reference.ofChars href).suffix := by
  rw [resolveFrom_relative hbase hhref hnetwork, chars_target_relative hbase hhref hnetwork]
  simp

end Relative

/-- A base loses nothing with its last segment if that is empty. -/
theorem slashed_dropLast_append_eq_iff {segments : List (List Char)} (h : AreSegments segments) :
    slashed segments.dropLast ++ ['/'] = slashed segments ↔
      (slashed segments).getLast? = some '/' := by
  cases segments using List.reverseRecOn with
  | nil => simp [slashed]
  | append_singleton segments segment =>
    have hsegment := h segment (by simp)
    rw [slashed_concat, List.dropLast_concat, List.append_cancel_left_eq, List.getLast?_append,
      List.getLast?_cons]
    cases segment using List.reverseRecOn with
    | nil => simp
    | append_singleton front c => simpa using hsegment c (by simp)

theorem slashed_orEmptySegment_eq_iff (segments : List (List Char)) :
    slashed (orEmptySegment segments) = slashed segments ↔ slashed segments ≠ [] := by
  cases segments with
  | nil => simp [slashed, orEmptySegment]
  | cons segment segments => simp [slashed_cons, orEmptySegment]

/-- The path of its own that a reference has, or else the one it gets from the base, decides. -/
theorem resolveFrom_eq_target_iff {scheme authority path href : List Char}
    (hbase : IsBase scheme authority path) (hhref : hasScheme href = false)
    (hnetwork : ¬ ['/', '/'] <+: href) :
    resolveFrom (Base.ofChars (scheme ++ ':' :: '/' :: '/' :: (authority ++ path))) href =
      (Reference.target
        (Reference.ofChars (scheme ++ ':' :: '/' :: '/' :: (authority ++ path)))
        (Reference.ofChars href)).chars ↔
    (Reference.ofChars href).path ≠ [] ∨ path.getLast? = some '/' ∨ href ≠ [] ∧ path ≠ [] := by
  obtain ⟨segments, rfl, hplain⟩ := hbase.exists_segments
  have hsegments : AreSegments segments := fun segment h => (hplain segment h).noSlash
  obtain ⟨-, -, hsplit⟩ := Reference.ofChars_relative hhref hnetwork
  have hpath := Reference.endsPath_of_mem_path href
  have hsuffix := Reference.followsPath_suffix href
  rw [resolveFrom_eq_target_iff_path hbase hhref hnetwork]
  generalize (Reference.ofChars href).path = path at hsplit hpath ⊢
  generalize (Reference.ofChars href).suffix = suffix at hsplit hsuffix ⊢
  subst hsplit
  by_cases hne : path = []
  · -- the path of the base is taken, and `resolve` may alter it
    subst hne
    rw [Reference.targetPath, if_pos rfl, List.nil_append]
    by_cases hempty : suffix = []
    · subst hempty
      rw [removeDotSegments_join_nil hplain rfl, List.append_nil,
        slashed_dropLast_append_eq_iff hsegments]
      simp
    · rw [removeDotSegments_join_of_suffix hplain rfl hempty hsuffix,
        List.append_cancel_right_eq, slashed_orEmptySegment_eq_iff]
      have hlast : (slashed segments).getLast? = some '/' → slashed segments ≠ [] := by
        rintro hlast hnil
        simp [hnil] at hlast
      simp only [ne_eq, not_true_eq_false, false_or, hempty, not_false_eq_true, true_and]
      exact ⟨Or.inr, fun h => h.elim hlast id⟩
  · rw [removeDotSegments_join_of_path hplain rfl hne hpath hsuffix, Reference.targetPath,
      if_neg hne, Reference.mergedPath_slashed rfl rfl hsegments]
    simp [hne]

/-- **References are resolved to their targets.** Against an address whose path has no dot segments,
a reference without a scheme and an authority gives the target that RFC 3986 has for it, whatever
dots and empty segments it holds, if and only if it has a path of its own, or the path of the
address ends with a slash, or neither reference nor path is empty. -/
theorem resolve_eq_target_iff {scheme authority path href : String}
    (hbase : IsBase scheme.toList authority.toList path.toList)
    (hhref : hasScheme href.toList = false) (hnetwork : ¬ ['/', '/'] <+: href.toList) :
    resolve href (some (scheme ++ "://" ++ authority ++ path)) =
      String.ofList (Reference.target
        (Reference.ofChars (scheme ++ "://" ++ authority ++ path).toList)
        (Reference.ofChars href.toList)).chars ↔
    (Reference.ofChars href.toList).path ≠ [] ∨ path.toList.getLast? = some '/' ∨
      href ≠ "" ∧ path ≠ "" := by
  have haddress : (scheme ++ "://" ++ authority ++ path).toList =
      scheme.toList ++ ':' :: '/' :: '/' :: (authority.toList ++ path.toList) := by
    simp
  rw [resolve, haddress, String.ofList_inj, resolveFrom_eq_target_iff hbase hhref hnetwork]
  simp

/-- A reference that climbs over the root of an address and goes on with an empty segment. -/
theorem resolve_eq_target_over_root :
    IsBase "http".toList "a".toList "/b/c/d".toList ∧
      hasScheme "../.././.././/g?y#s".toList = false ∧
      ¬ ['/', '/'] <+: "../.././.././/g?y#s".toList ∧
      resolve "../.././.././/g?y#s" (some ("http" ++ "://" ++ "a" ++ "/b/c/d")) =
        "http://a//g?y#s" ∧
      resolve "../.././.././/g?y#s" (some ("http" ++ "://" ++ "a" ++ "/b/c/d")) =
        String.ofList (Reference.target
          (Reference.ofChars ("http" ++ "://" ++ "a" ++ "/b/c/d").toList)
          (Reference.ofChars "../.././.././/g?y#s".toList)).chars := by
  have hbase : IsBase "http".toList "a".toList "/b/c/d".toList :=
    ⟨by decide, by simp [endsAuthority, endsPath], by decide, by simp [endsPath], by decide⟩
  have hhref : hasScheme "../.././.././/g?y#s".toList = false := by decide
  have hnetwork : ¬ ['/', '/'] <+: "../.././.././/g?y#s".toList := by decide
  refine ⟨hbase, hhref, hnetwork, by decide, ?_⟩
  exact (resolve_eq_target_iff hbase hhref hnetwork).mpr (.inl (by decide))

/-- An empty reference stands for the address itself, and is resolved to its directory. -/
theorem resolve_empty_loses_segment :
    IsBase "http".toList "h".toList "/a".toList ∧ hasScheme "".toList = false ∧
      ¬ ['/', '/'] <+: "".toList ∧
      resolve "" (some ("http" ++ "://" ++ "h" ++ "/a")) = "http://h/" ∧
      String.ofList (Reference.target
        (Reference.ofChars ("http" ++ "://" ++ "h" ++ "/a").toList)
        (Reference.ofChars "".toList)).chars = "http://h/a" :=
  ⟨⟨by decide, by simp [endsAuthority, endsPath], by decide, by simp [endsPath], by decide⟩,
    by decide, by decide, by decide, by decide⟩

end CssModel.Url
