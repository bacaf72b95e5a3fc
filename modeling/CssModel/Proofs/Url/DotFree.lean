import CssModel.Proofs.Url.Target

/-!
# Paths without dot segments

Where dots are removed from a path, a segment is kept as it is only if it is no dot segment, and
nothing but an empty segment is ever put in the place of one. So whatever the path was, plain
segments are left of it, each behind a slash, and what follows the path.

All references that lead to a path within the origin of their base are cleared of dots in that way.
A reference with an authority of its own is not: it is put behind the scheme of the base as it
stands, and its path keeps the dot segments that it has.

## Main definitions

* `CssModel.Url.IsDotFree`: a path without dot segments

## Main results

* `CssModel.Url.mem_addSegment`, `CssModel.Url.mem_keepSegments`: what a step may keep, and what a
  run may keep
* `CssModel.Url.exists_removeDotSegments_eq_slashed`
* `CssModel.Url.resolve_isDotFree_iff`
-/

namespace CssModel.Url

/-- No segment of the path is a dot segment. -/
def IsDotFree (path : List Char) : Prop :=
  ∀ segment ∈ path.splitOn '/', segment ≠ ['.'] ∧ segment ≠ ['.', '.']

instance (path : List Char) : Decidable (IsDotFree path) :=
  inferInstanceAs (Decidable (∀ segment ∈ path.splitOn '/', _))

/-! ### What is kept -/

section Kept

variable {segment s : List Char} {segments kept : List (List Char)}

/-- A step keeps what was kept, or an empty segment, or a segment that is no dot segment. -/
theorem mem_addSegment {last : Bool} (h : s ∈ addSegment kept segment last) :
    s ∈ kept ∨ s = [] ∨ s = segment ∧ segment ≠ ['.'] ∧ segment ≠ ['.', '.'] := by
  have hdots : ∀ {stack : List (List Char)}, (∀ s ∈ stack, s ∈ kept) →
      s ∈ (if last then stack ++ [[]] else stack) → s ∈ kept ∨ s = [] := by
    intro stack hstack hs
    split at hs
    · exact (List.mem_append.mp hs).imp (hstack s) List.mem_singleton.mp
    · exact .inl (hstack s hs)
  rw [addSegment] at h
  by_cases hone : segment = ['.']
  · rw [if_pos hone] at h
    exact (hdots (fun _ => id) h).imp id .inl
  rw [if_neg hone] at h
  by_cases htwo : segment = ['.', '.']
  · rw [if_pos htwo] at h
    refine (hdots (fun s hs => ?_) h).imp id .inl
    split at hs
    · exact List.mem_of_mem_dropLast hs
    · exact hs
  · rw [if_neg htwo] at h
    refine (List.mem_append.mp h).imp id fun hs => .inr ⟨List.mem_singleton.mp hs, hone, htwo⟩

/-- A run over segments keeps what was kept, or empty segments, or such as are no dot segments. -/
theorem mem_keepSegments (h : s ∈ keepSegments kept segments) :
    s ∈ kept ∨ s = [] ∨ s ∈ segments ∧ s ≠ ['.'] ∧ s ≠ ['.', '.'] := by
  induction segments generalizing kept with
  | nil => exact .inl h
  | cons segment segments ih =>
    rw [keepSegments] at h
    obtain hs | hs | ⟨hs, hdots⟩ := ih h
    · obtain hs | hs | ⟨rfl, hdots⟩ := mem_addSegment hs
      · exact .inl hs
      · exact .inr (.inl hs)
      · exact .inr (.inr ⟨List.mem_cons_self, hdots⟩)
    · exact .inr (.inl hs)
    · exact .inr (.inr ⟨List.mem_cons_of_mem _ hs, hdots⟩)

end Kept

/-! ### What is left of a path -/

theorem mem_of_mem_splitOn {path segment : List Char} (h : segment ∈ path.splitOn '/') :
    ∀ c ∈ segment, c ∈ path := by
  intro c hc
  have hslashed : c ∈ slashed (path.splitOn '/') :=
    List.mem_flatMap.mpr ⟨segment, h, List.mem_cons_of_mem _ hc⟩
  rw [slashed_splitOn] at hslashed
  obtain rfl | hmem := List.mem_cons.mp hslashed
  · exact absurd rfl (areSegments_splitOn path segment h '/' hc)
  · exact hmem

/-- From the segments of a path only plain ones are kept. -/
theorem isPlain_of_mem_keepSegments {path : List Char} (hpath : ∀ c ∈ path, endsPath c = false) :
    ∀ s ∈ keepSegments [] (path.splitOn '/'), IsPlain s := by
  intro s hs
  obtain hs | rfl | ⟨hs, hdots⟩ := mem_keepSegments hs
  · cases hs
  · exact isPlain_nil
  · exact ⟨areSegments_splitOn path s hs, fun c hc => hpath c (mem_of_mem_splitOn hs c hc), hdots⟩

/-- Plain segments with slashes between them start with a slash, or get one. -/
theorem exists_slashed_eq {segments : List (List Char)} (hplain : ∀ s ∈ segments, IsPlain s) :
    ∃ kept, kept ≠ [] ∧ (∀ s ∈ kept, IsPlain s) ∧
      (if (List.intercalate ['/'] segments).head? = some '/' then List.intercalate ['/'] segments
        else '/' :: List.intercalate ['/'] segments) = slashed kept := by
  cases segments with
  | nil => exact ⟨[[]], by simp, by simpa using isPlain_nil, rfl⟩
  | cons first others =>
    rw [intercalate_cons]
    split
    · next hhead =>
      obtain ⟨hfirst, hothers⟩ := List.forall_mem_cons.mp hplain
      -- the slash in front is that of the second segment, so the first one is empty
      obtain rfl : first = [] := by
        cases first with
        | nil => rfl
        | cons c rest =>
          obtain rfl : c = '/' := by simpa using hhead
          exact absurd rfl (hfirst.noSlash '/' List.mem_cons_self)
      refine ⟨others, ?_, hothers, rfl⟩
      rintro rfl
      simp [slashed] at hhead
    · exact ⟨first :: others, by simp, hplain, (slashed_cons first others).symm⟩

/-- **Plain segments are left of any path**, and what follows the path. -/
theorem exists_removeDotSegments_eq_slashed (path : List Char) :
    ∃ kept suffix, removeDotSegments path = slashed kept ++ suffix ∧ kept ≠ [] ∧
      (∀ s ∈ kept, IsPlain s) ∧ FollowsPath suffix := by
  have hbefore : ∀ c ∈ path.takeWhile (! endsPath ·), endsPath c = false := by
    intro c hc
    simpa using List.mem_takeWhile_imp hc
  obtain ⟨kept, hne, hplain, hkept⟩ := exists_slashed_eq (isPlain_of_mem_keepSegments hbefore)
  refine ⟨kept, path.dropWhile (! endsPath ·), ?_, hne, hplain,
    Reference.followsPath_dropWhile path⟩
  rw [removeDotSegments, ← hkept]

theorem isDotFree_nil : IsDotFree [] := by
  simp [IsDotFree, List.splitOn_nil]

theorem isDotFree_slashed {segments : List (List Char)} (hplain : ∀ s ∈ segments, IsPlain s) :
    IsDotFree (slashed segments) := by
  rw [IsDotFree, splitOn_slashed fun s hs => (hplain s hs).noSlash]
  intro s hs
  obtain rfl | hs := List.mem_cons.mp hs
  · simp
  · exact (hplain s hs).noDots

/-! ### The path of an address -/

section Address

variable {scheme authority : List Char} {kept : List (List Char)} {suffix : List Char}
  (hscheme : isScheme scheme = true)

include hscheme

/-- The path of an address stands between its authority and what follows the path. -/
theorem path_ofChars_append (rest : List Char) :
    (Reference.ofChars (scheme ++ ':' :: '/' :: '/' :: rest)).path =
      (rest.dropWhile (! endsAuthority ·)).takeWhile (! endsPath ·) := by
  rw [Reference.ofChars_of_cut
    (Reference.cutScheme_of_isScheme hscheme ('/' :: '/' :: rest)) rfl]

/-- Plain segments behind an authority make a path without dot segments, or none if the authority
ends in a query or a fragment before them. -/
theorem isDotFree_path_ofChars (hauthority : ∀ c ∈ authority, c ≠ '/') (hne : kept ≠ [])
    (hplain : ∀ s ∈ kept, IsPlain s) (hsuffix : FollowsPath suffix) :
    IsDotFree (Reference.ofChars
      (scheme ++ ':' :: '/' :: '/' :: (authority ++ (slashed kept ++ suffix)))).path := by
  rw [path_ofChars_append hscheme, List.dropWhile_append]
  cases hrest : authority.dropWhile (! endsAuthority ·) with
  | nil =>
    have hslash : (slashed kept ++ suffix).dropWhile (! endsAuthority ·) =
        slashed kept ++ suffix := by
      obtain ⟨first, others, rfl⟩ := List.exists_cons_of_ne_nil hne
      simp [slashed_cons, endsAuthority]
    rw [if_pos List.isEmpty_nil, hslash,
      (cut_append_suffix (inPath_slashed fun s hs => (hplain s hs).inPath) hsuffix).1]
    exact isDotFree_slashed hplain
  | cons c rest =>
    have hends : endsPath c = true := by
      have hmem : c ∈ authority := (List.dropWhile_suffix _).mem (hrest ▸ List.mem_cons_self)
      have hnot := List.head?_dropWhile_not (! endsAuthority ·) authority
      rw [hrest] at hnot
      simpa [endsAuthority, hauthority c hmem] using hnot
    rw [if_neg (by simp), List.cons_append, List.takeWhile_cons_of_neg (by simp [hends])]
    exact isDotFree_nil

/-- Read as a base again, the address has these segments for its path. -/
theorem path_ofChars_slashed (hauthority : ∀ c ∈ authority, c ≠ '/') (hne : kept ≠ []) :
    (Base.ofChars (scheme ++ ':' :: '/' :: '/' :: (authority ++ (slashed kept ++ suffix)))).path =
      slashed kept ++ suffix := by
  obtain ⟨first, others, rfl⟩ := List.exists_cons_of_ne_nil hne
  have hpos : ∀ c ∈ authority, decide (c ≠ '/') = true := by simpa using hauthority
  rw [Base.ofChars, splitScheme?_append (ne_colon_of_isScheme hscheme), Option.getD_some]
  simp only [List.dropWhile_append_of_pos hpos]
  simp [slashed_cons]

/-- A reference with an authority is put behind the scheme as it stands. -/
theorem resolveFrom_network {network : List Char}
    (hhref : hasScheme ('/' :: '/' :: network) = false) (rest : List Char) :
    resolveFrom (Base.ofChars (scheme ++ ':' :: '/' :: '/' :: rest)) ('/' :: '/' :: network) =
      scheme ++ ':' :: '/' :: '/' :: network := by
  have hempty : (Base.ofChars (scheme ++ ':' :: '/' :: '/' :: rest)).scheme.isEmpty = false := by
    simpa using scheme_ne_nil_of_address hscheme rest
  rw [resolveFrom, hhref, if_neg Bool.false_ne_true, hempty, if_neg Bool.false_ne_true,
    (ofChars_append hscheme rest).1, List.append_assoc]
  rfl

/-- Its path is left as it is. -/
theorem path_resolveFrom_network {network : List Char}
    (hhref : hasScheme ('/' :: '/' :: network) = false) (rest : List Char) :
    (Reference.ofChars (resolveFrom (Base.ofChars (scheme ++ ':' :: '/' :: '/' :: rest))
      ('/' :: '/' :: network))).path = (Reference.ofChars ('/' :: '/' :: network)).path := by
  have hcut : Reference.cutScheme ('/' :: '/' :: network) = (none, '/' :: '/' :: network) := by
    rw [Reference.cutScheme, hhref, if_neg Bool.false_ne_true]
  rw [resolveFrom_network hscheme hhref, path_ofChars_append hscheme,
    Reference.ofChars_of_cut hcut rfl]

/-- Any other reference leads to plain segments behind the authority of the base. -/
theorem exists_resolveFrom_eq_slashed {href : List Char} (hhref : hasScheme href = false)
    (hnetwork : ¬ ['/', '/'] <+: href) (rest : List Char) :
    ∃ kept suffix, kept ≠ [] ∧ (∀ s ∈ kept, IsPlain s) ∧ FollowsPath suffix ∧
      resolveFrom (Base.ofChars (scheme ++ ':' :: '/' :: '/' :: rest)) href =
        scheme ++ ':' :: '/' :: '/' :: (rest.takeWhile (· ≠ '/') ++ (slashed kept ++ suffix)) := by
  obtain ⟨hbase, hauthority⟩ := ofChars_append hscheme rest
  obtain ⟨kept, suffix, hremoved, hne, hplain, hsuffix⟩ := exists_removeDotSegments_eq_slashed
    ((Base.ofChars (scheme ++ ':' :: '/' :: '/' :: rest)).join href)
  refine ⟨kept, suffix, hne, hplain, hsuffix, ?_⟩
  rw [resolveFrom_of_relative hhref hnetwork, hremoved,
    origin_of_scheme (scheme_ne_nil_of_address hscheme rest), hbase, hauthority, List.append_assoc]
  rfl

end Address

/-- **References lead to paths without dot segments, unless they bring an authority with them.**
Against an address with a scheme, a reference without one gives a path without dot segments if it
has no authority of its own, whichever segments it and the address hold, and also where the
authority of the address is taken to go on up to the first slash. A reference with an authority
keeps its path, so that its own dot segments decide. -/
theorem resolve_isDotFree_iff {scheme href : String} (hscheme : isScheme scheme.toList = true)
    (hhref : hasScheme href.toList = false) (rest : String) :
    (IsDotFree (Reference.ofChars (resolve href (some (scheme ++ "://" ++ rest))).toList).path ↔
      ¬ ['/', '/'] <+: href.toList ∨ IsDotFree (Reference.ofChars href.toList).path) ∧
    (¬ ['/', '/'] <+: href.toList →
      IsDotFree
        ((Base.ofChars (resolve href (some (scheme ++ "://" ++ rest))).toList).path.takeWhile
          (! endsPath ·))) := by
  have haddress : (scheme ++ "://" ++ rest).toList =
      scheme.toList ++ ':' :: '/' :: '/' :: rest.toList := by simp
  have hslash : ∀ c ∈ rest.toList.takeWhile (· ≠ '/'), c ≠ '/' := by
    intro c hc
    simpa using List.mem_takeWhile_imp hc
  rw [resolve, String.toList_ofList, haddress]
  generalize href.toList = href at hhref ⊢
  by_cases hnetwork : ['/', '/'] <+: href
  · refine ⟨?_, fun hnot => absurd hnetwork hnot⟩
    obtain ⟨network, rfl⟩ := hnetwork
    have hpath : (Reference.ofChars (resolveFrom _ (['/', '/'] ++ network))).path =
      (Reference.ofChars (['/', '/'] ++ network)).path :=
      path_resolveFrom_network hscheme hhref rest.toList
    rw [hpath]
    exact ⟨.inr, fun h => h.resolve_left (not_not_intro (List.prefix_append _ _))⟩
  · obtain ⟨kept, suffix, hne, hplain, hsuffix, heq⟩ :=
      exists_resolveFrom_eq_slashed hscheme hhref hnetwork rest.toList
    rw [heq, path_ofChars_slashed hscheme hslash hne,
      (cut_append_suffix (inPath_slashed fun s hs => (hplain s hs).inPath) hsuffix).1]
    exact ⟨iff_of_true (isDotFree_path_ofChars hscheme hslash hne hplain hsuffix) (.inl hnetwork),
      fun _ => isDotFree_slashed hplain⟩

/-- Dot segments are removed from a path that is put together of those of base and reference, but
not from what follows it. -/
theorem resolve_isDotFree_climbing :
    isScheme "http".toList = true ∧ hasScheme "..//./x/../.?q/../r".toList = false ∧
      resolve "..//./x/../.?q/../r" (some ("http" ++ "://" ++ "h/a/./b/../c")) =
        "http://h//?q/../r" ∧
      IsDotFree (Reference.ofChars (resolve "..//./x/../.?q/../r"
        (some ("http" ++ "://" ++ "h/a/./b/../c"))).toList).path := by
  have hscheme : isScheme "http".toList = true := by decide
  have hhref : hasScheme "..//./x/../.?q/../r".toList = false := by decide
  exact ⟨hscheme, hhref, by decide,
    (resolve_isDotFree_iff hscheme hhref "h/a/./b/../c").1.mpr (.inl (by decide))⟩

/-- A reference with an authority keeps its dot segments. -/
theorem resolve_network_keeps_dots :
    isScheme "http".toList = true ∧ hasScheme "//h/a/../b".toList = false ∧
      resolve "//h/a/../b" (some ("http" ++ "://" ++ "x/")) = "http://h/a/../b" ∧
      ¬ IsDotFree (Reference.ofChars
        (resolve "//h/a/../b" (some ("http" ++ "://" ++ "x/"))).toList).path := by
  decide

end CssModel.Url
