import CssModel.Term.Basic
import Mathlib

/-!
# Where references lead

A reference without a scheme that names no authority is resolved within the origin of its base: the
result has the scheme and the authority of the base, and only its path depends on the reference.
Dots go no higher than the first slash, since they are removed from the path before the origin is
put in front of it. The result has a scheme, so that it is resolved to itself wherever it stands.

The base is taken apart by looking for the first `://` and then for the first slash. No scheme holds
a colon and no authority a slash, so both are found where they were put, in the base and again in
the result.

## Main results

* `CssModel.Url.ofChars_append`: a base written as scheme and rest
* `CssModel.Url.resolveFrom_cases`: the three ways in which a reference is resolved
* `CssModel.Url.resolve_within_origin`
-/

namespace CssModel.Url

variable {scheme authority rest path : List Char}

/-! ### Schemes -/

theorem ne_colon_of_isScheme (h : isScheme scheme = true) : ∀ c ∈ scheme, c ≠ ':' := by
  cases scheme with
  | nil => cases h
  | cons c cs =>
    rw [isScheme, Bool.and_eq_true, List.all_eq_true] at h
    obtain ⟨hfirst, hrest⟩ := h
    intro d hd
    rintro rfl
    rcases List.mem_cons.mp hd with rfl | hd
    · exact absurd hfirst (by decide)
    · exact absurd (hrest ':' hd) (by decide)

theorem ne_nil_of_isScheme (h : isScheme scheme = true) : scheme ≠ [] := by
  rintro rfl
  cases h

/-- What stands in front of a character is found again up to it. -/
theorem takeWhile_ne_append {c : Char} {front : List Char} (h : ∀ d ∈ front, d ≠ c)
    (rest : List Char) : (front ++ c :: rest).takeWhile (· ≠ c) = front := by
  have hfront : ∀ d ∈ front, decide (d ≠ c) = true := by simpa using h
  rw [List.takeWhile_append_of_pos hfront, List.takeWhile_cons_of_neg (by simp), List.append_nil]

/-- What stands behind a scheme and a colon stands for itself. -/
theorem hasScheme_append (h : isScheme scheme = true) (rest : List Char) :
    hasScheme (scheme ++ ':' :: rest) = true := by
  rw [hasScheme, takeWhile_ne_append (ne_colon_of_isScheme h), h, Bool.and_true,
    List.contains_iff_mem]
  exact List.mem_append_right _ List.mem_cons_self

theorem splitScheme?_append (h : ∀ c ∈ scheme, c ≠ ':') (rest : List Char) :
    splitScheme? (scheme ++ ':' :: '/' :: '/' :: rest) = some (scheme, rest) := by
  induction scheme with
  | nil => rfl
  | cons c cs ih =>
    obtain ⟨hc, hcs⟩ := List.forall_mem_cons.mp h
    rw [List.cons_append, splitScheme?, ih hcs]
    · rfl
    · exact fun _ heq _ => hc heq

/-! ### Bases -/

/-- The base of an address with a scheme: its authority ends at the first slash. -/
theorem ofChars_append (h : isScheme scheme = true) (rest : List Char) :
    (Base.ofChars (scheme ++ ':' :: '/' :: '/' :: rest)).scheme = scheme ∧
      (Base.ofChars (scheme ++ ':' :: '/' :: '/' :: rest)).authority =
        rest.takeWhile (· ≠ '/') := by
  rw [Base.ofChars, splitScheme?_append (ne_colon_of_isScheme h)]
  exact ⟨rfl, rfl⟩

theorem origin_of_scheme {base : Base} (h : base.scheme ≠ []) :
    base.origin = base.scheme ++ ':' :: '/' :: '/' :: base.authority := by
  have hempty : base.scheme.isEmpty = false := by simpa using h
  rw [Base.origin, hempty, if_neg Bool.false_ne_true, List.append_assoc]
  rfl

/-! ### Resolving -/

/-- Whatever the path was, it starts with a slash when its dots are removed. -/
theorem exists_removeDotSegments_eq (path : List Char) :
    ∃ tail, removeDotSegments path = '/' :: tail := by
  rw [removeDotSegments]
  split
  · next hhead =>
    obtain ⟨tail, htail⟩ := List.head?_eq_some_iff.mp hhead
    rw [htail]
    exact ⟨_, rfl⟩
  · exact ⟨_, rfl⟩

/-- Against a base with a scheme, a reference stands for itself, or goes to an authority of its own,
or to a path within the origin of the base. -/
theorem resolveFrom_cases {base : Base} (hscheme : base.scheme ≠ []) (href : List Char) :
    hasScheme href = true ∧ resolveFrom base href = href ∨
    (∃ network, href = '/' :: '/' :: network ∧
      resolveFrom base href = base.scheme ++ ':' :: '/' :: '/' :: network) ∨
    ∃ tail, resolveFrom base href = base.origin ++ '/' :: tail := by
  have hempty : base.scheme.isEmpty = false := by simpa using hscheme
  by_cases hhref : hasScheme href = true
  · exact .inl ⟨hhref, if_pos hhref⟩
  · rw [resolveFrom.eq_def, if_neg hhref]
    split
    · next network =>
      refine .inr (.inl ⟨network, rfl, ?_⟩)
      rw [hempty, if_neg Bool.false_ne_true, List.append_assoc]
      rfl
    · obtain ⟨tail, htail⟩ := exists_removeDotSegments_eq (base.join href)
      exact .inr (.inr ⟨tail, by rw [htail]⟩)

/-- Without a scheme and an authority a reference gives a path within the origin of the base. -/
theorem resolveFrom_of_relative {href : List Char} (hhref : hasScheme href = false)
    (hnetwork : ¬ ['/', '/'] <+: href) (base : Base) :
    resolveFrom base href = base.origin ++ removeDotSegments (base.join href) := by
  rw [resolveFrom.eq_def, hhref, if_neg Bool.false_ne_true]
  split
  · next network => exact absurd ⟨network, rfl⟩ hnetwork
  · rfl

/-- What has a scheme is resolved to itself. -/
theorem resolve_of_hasScheme {href : String} (h : hasScheme href.toList = true)
    (base : Option String) : resolve href base = href := by
  cases base with
  | none => rfl
  | some address => rw [resolve, resolveFrom.eq_def, if_pos h, String.ofList_toList]

section Address

variable (hscheme : isScheme scheme = true) (rest href : List Char)

include hscheme

theorem scheme_ne_nil_of_address :
    (Base.ofChars (scheme ++ ':' :: '/' :: '/' :: rest)).scheme ≠ [] := by
  rw [(ofChars_append hscheme rest).1]
  exact ne_nil_of_isScheme hscheme

/-- An address with a scheme gives a scheme to whatever is resolved against it. -/
theorem hasScheme_resolveFrom :
    hasScheme (resolveFrom (Base.ofChars (scheme ++ ':' :: '/' :: '/' :: rest)) href) = true := by
  have hne := scheme_ne_nil_of_address hscheme rest
  have hbase := (ofChars_append hscheme rest).1
  rcases resolveFrom_cases hne href with ⟨hhref, heq⟩ | ⟨network, -, heq⟩ | ⟨tail, heq⟩
  · rwa [heq]
  · rw [heq, hbase]
    exact hasScheme_append hscheme _
  · rw [heq, origin_of_scheme hne, hbase, List.append_assoc, List.cons_append]
    exact hasScheme_append hscheme _

/-- The authority of the result is the one of the address. -/
theorem exists_resolveFrom_eq (hhref : hasScheme href = false)
    (hnetwork : ¬ ['/', '/'] <+: href) :
    ∃ tail, resolveFrom (Base.ofChars (scheme ++ ':' :: '/' :: '/' :: rest)) href =
      scheme ++ ':' :: '/' :: '/' :: (rest.takeWhile (· ≠ '/') ++ '/' :: tail) := by
  have hne := scheme_ne_nil_of_address hscheme rest
  obtain ⟨hbase, hauthority⟩ := ofChars_append hscheme rest
  rcases resolveFrom_cases hne href with ⟨hs, -⟩ | ⟨network, heq, -⟩ | ⟨tail, heq⟩
  · rw [hhref] at hs
    cases hs
  · exact absurd ⟨network, heq.symm⟩ hnetwork
  · rw [origin_of_scheme hne, hbase, hauthority, List.append_assoc] at heq
    exact ⟨tail, heq⟩

end Address

/-- **References stay within the origin of their base.** Against an address with a scheme, a
reference without a scheme and an authority gives the origin of that address and a path that starts
with a slash, whatever its segments are; read as an address again, the result has the scheme and the
authority of the base. Any reference at all gives what is resolved to itself from then on. -/
theorem resolve_within_origin {scheme : String} (hscheme : isScheme scheme.toList = true)
    (rest href : String) :
    ∃ result : String, resolve href (some (scheme ++ "://" ++ rest)) = result ∧
      (hasScheme href.toList = false → ¬ ['/', '/'] <+: href.toList →
        ∃ path : String, path.toList.head? = some '/' ∧
          result = scheme ++ "://" ++ String.ofList (rest.toList.takeWhile (· ≠ '/')) ++ path ∧
          (Base.ofChars result.toList).scheme = scheme.toList ∧
          (Base.ofChars result.toList).authority = rest.toList.takeWhile (· ≠ '/')) ∧
      ∀ base : Option String, resolve result base = result := by
  have haddress : (scheme ++ "://" ++ rest).toList =
      scheme.toList ++ ':' :: '/' :: '/' :: rest.toList := by simp
  have hresult : (resolve href (some (scheme ++ "://" ++ rest))).toList =
      resolveFrom (Base.ofChars (scheme.toList ++ ':' :: '/' :: '/' :: rest.toList))
        href.toList := by
    rw [resolve, String.toList_ofList, haddress]
  refine ⟨_, rfl, fun hhref hnetwork => ?_, resolve_of_hasScheme ?_⟩
  · obtain ⟨tail, htail⟩ := exists_resolveFrom_eq hscheme rest.toList href.toList hhref hnetwork
    have hslash : ∀ c ∈ rest.toList.takeWhile (· ≠ '/'), c ≠ '/' := by
      intro c hc
      simpa using List.mem_takeWhile_imp hc
    obtain ⟨hscheme', hauthority⟩ :=
      ofChars_append hscheme (rest.toList.takeWhile (· ≠ '/') ++ '/' :: tail)
    rw [takeWhile_ne_append hslash] at hauthority
    rw [hresult, htail]
    refine ⟨String.ofList ('/' :: tail), by simp, ?_, hscheme', hauthority⟩
    rw [← String.toList_inj, hresult, htail]
    simp
  · rw [hresult]
    exact hasScheme_resolveFrom hscheme rest.toList href.toList

/-- As many dots as may be lead no higher than the authority. -/
theorem resolve_within_origin_dots :
    isScheme "http".toList = true ∧ hasScheme "../../../b?c".toList = false ∧
      ¬ ['/', '/'] <+: "../../../b?c".toList ∧
      ∃ result : String, resolve "../../../b?c" (some ("http" ++ "://" ++ "host/d/a")) = result ∧
        result = "http://host/b?c" ∧ (Base.ofChars result.toList).authority = "host".toList ∧
        resolve result (some "ftp://other/") = result := by
  have hscheme : isScheme "http".toList = true := by decide
  have hhref : hasScheme "../../../b?c".toList = false := by decide
  have hnetwork : ¬ ['/', '/'] <+: "../../../b?c".toList := by decide
  obtain ⟨result, hresult, hwithin, hagain⟩ :=
    resolve_within_origin hscheme "host/d/a" "../../../b?c"
  obtain ⟨path, -, -, -, hauthority⟩ := hwithin hhref hnetwork
  refine ⟨hscheme, hhref, hnetwork, result, hresult, ?_, hauthority.trans (by decide), hagain _⟩
  rw [← hresult]
  decide

end CssModel.Url
