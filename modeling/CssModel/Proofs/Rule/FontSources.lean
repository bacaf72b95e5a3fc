import CssModel.Rule.FontFace
import CssModel.Term.Call
import Mathlib.Data.List.Infix

/-!
# Font sources

A `src` descriptor is read from left to right into a list of sources, and a `format()` is written
into the last source that the list has by then. So which address gets a hint does not depend on the
term behind it, but on all terms up to the next source: the last `format()` among them counts.
Functions are taken as they are, whether they are valid or not.

It is documented otherwise: a hint belongs to the address right before it, and what is invalid is
treated as absent. Both readings give each term its source on its own, given the terms behind it.
They can be compared term by term, since the documented one never has a source where the other has
none.

## Main definitions

* `CssModel.FontSource.ofTerm?`: the source that a term denotes
* `CssModel.FontSource.lastHint?`, `CssModel.FontSource.nextHint?`: the hint behind an address, as
  it is taken and as it is documented
* `CssModel.FontSource.documented`

## Main results

* `CssModel.FontSource.foldl_next`: what a run over terms does to the sources so far
* `CssModel.FontSource.ofTerms_eq`
* `CssModel.FontFaceRule.sources_eq_documented_iff`
-/

namespace CssModel

namespace FontSource

/-! ### Terms -/

/-- The text in a function of this name; it may have none. -/
def callText? (name : String) (t : Term) : Option (Option String) :=
  t.call?.bind fun f => if Ascii.sameText f.name name then some (textOfTerms? f.args) else none

/-- The name that a `local()` gives. -/
def installedName? (t : Term) : Option String :=
  (callText? "local" t).join

/-- The source that a term denotes. The hint is for an address. -/
def ofTerm? (hint : Option String) (t : Term) : Option FontSource :=
  match t.uri? with
  | some u => some (.url u hint)
  | none => (installedName? t).map .installed

/-- The hint that is written last, if any is, before the next source. -/
def lastHint? : List Term → Option (Option String)
  | [] => none
  | t :: rest =>
    if (ofTerm? none t).isSome then none else (lastHint? rest).or (callText? "format" t)

/-- The hint in the next term. -/
def nextHint? : List Term → Option String
  | [] => none
  | t :: _ => if t.valid then (callText? "format" t).join else none

/-- The source of the first term, with the hint that is written last. -/
def collected? : List Term → Option FontSource
  | [] => none
  | t :: rest => ofTerm? (lastHint? rest).join t

/-- The source of the first term, unless it is invalid, with the hint in the next term. -/
def documented? : List Term → Option FontSource
  | [] => none
  | t :: rest => if t.valid then ofTerm? (nextHint? rest) t else none

/-- The sources that terms denote as it is documented, one for each term that has one. -/
def documented (terms : List Term) : List FontSource :=
  terms.tails.filterMap documented?

/-! ### A step -/

/-- The sources with a hint for the last one, if there is a hint. -/
def amend (hint : Option (Option String)) (sources : List FontSource) : List FontSource :=
  hint.elim sources (withFormat · sources)

theorem withFormat_concat_url (sources : List FontSource) (u : Uri)
    (hint hint' : Option String) :
    withFormat hint (sources ++ [.url u hint']) = sources ++ [.url u hint] := by
  induction sources with
  | nil => rfl
  | cons s sources ih =>
    rw [List.cons_append, withFormat, ih, List.cons_append]
    simp

theorem withFormat_concat_installed (sources : List FontSource) (name : String)
    (hint : Option String) :
    withFormat hint (sources ++ [.installed name]) = sources ++ [.installed name] := by
  induction sources with
  | nil => rfl
  | cons s sources ih =>
    rw [List.cons_append, withFormat, ih]
    simp

theorem withFormat_withFormat (hint hint' : Option String) (sources : List FontSource) :
    withFormat hint (withFormat hint' sources) = withFormat hint sources := by
  cases sources using List.reverseRecOn with
  | nil => rfl
  | append_singleton sources s =>
    cases s with
    | url u _ => simp [withFormat_concat_url]
    | installed name => simp [withFormat_concat_installed]

theorem amend_amend (hint hint' : Option (Option String)) (sources : List FontSource) :
    amend hint (amend hint' sources) = amend (hint.or hint') sources := by
  cases hint with
  | none => rfl
  | some hint =>
    cases hint' with
    | none => rfl
    | some hint' => exact withFormat_withFormat hint hint' sources

/-- A hint is written into the source that came last. -/
theorem amend_concat {t : Term} {s : FontSource} (h : ofTerm? none t = some s)
    (hint : Option (Option String)) (sources : List FontSource) :
    ∃ s', ofTerm? hint.join t = some s' ∧ amend hint (sources ++ [s]) = sources ++ [s'] := by
  rw [ofTerm?] at h ⊢
  cases hu : t.uri? with
  | some u =>
    obtain rfl : FontSource.url u none = s := by simpa [hu] using h
    cases hint with
    | none => exact ⟨_, rfl, rfl⟩
    | some hint => exact ⟨_, rfl, withFormat_concat_url sources u hint none⟩
  | none =>
    rw [hu] at h
    obtain ⟨name, hname, rfl⟩ := Option.map_eq_some_iff.mp h
    refine ⟨.installed name, by rw [hname]; rfl, ?_⟩
    cases hint with
    | none => rfl
    | some hint => exact withFormat_concat_installed sources name hint

theorem isSome_ofTerm? (hint hint' : Option String) (t : Term) :
    (ofTerm? hint t).isSome = (ofTerm? hint' t).isSome := by
  rw [ofTerm?, ofTerm?]
  cases t.uri? with
  | some u => rfl
  | none => rfl

theorem not_sameText_local {name : String} (h : Ascii.sameText name "format" = true) :
    Ascii.sameText name "local" = false := by
  rw [Ascii.sameText, beq_iff_eq] at h
  rw [Ascii.sameText, h]
  decide

/-- **A term is a source of its own, or it may be a hint.** -/
theorem next_eq (sources : List FontSource) (t : Term) :
    next sources t =
      (ofTerm? none t).elim (amend (callText? "format" t) sources) (sources ++ [·]) := by
  obtain ⟨operator, value⟩ := t
  cases value with
  | call f =>
    by_cases hformat : Ascii.sameText f.name "format" = true
    · simp [next, ofTerm?, installedName?, callText?, Term.uri?, Term.call?, amend, hformat,
        not_sameText_local hformat]
    · by_cases hlocal : Ascii.sameText f.name "local" = true
      · cases htext : textOfTerms? f.args <;>
          simp [next, ofTerm?, installedName?, callText?, Term.uri?, Term.call?, amend, hformat,
            hlocal, htext]
      · simp [next, ofTerm?, installedName?, callText?, Term.uri?, Term.call?, amend, hformat,
          hlocal]
  | _ => rfl

/-! ### Runs -/

/-- **A run amends the last source there is, and puts the sources of the terms behind it.** -/
theorem foldl_next (terms : List Term) (sources : List FontSource) :
    terms.foldl next sources =
      amend (lastHint? terms) sources ++ terms.tails.filterMap collected? := by
  induction terms generalizing sources with
  | nil => simp [lastHint?, collected?, amend]
  | cons t rest ih =>
    rw [List.foldl_cons, ih, next_eq, List.tails_cons, List.filterMap_cons]
    cases hterm : ofTerm? none t with
    | none =>
      have hnone : collected? (t :: rest) = none := by
        rw [collected?, ← Option.isNone_iff_eq_none, ← Option.not_isSome, isSome_ofTerm? _ none,
          hterm]
        rfl
      rw [hnone, Option.elim_none, amend_amend, lastHint?, hterm]
      rfl
    | some s =>
      obtain ⟨s', hs', hamend⟩ := amend_concat hterm (lastHint? rest) sources
      rw [collected?, hs', Option.elim_some, hamend, lastHint?, hterm]
      simp [amend]

theorem ofTerms_eq (terms : List Term) : ofTerms terms = terms.tails.filterMap collected? := by
  rw [ofTerms, foldl_next]
  cases lastHint? terms <;> rfl

/-! ### The two readings -/

/-- Results that are taken one by one, where the second has none unless the first has one, are the
same lists only if they are the same one by one. -/
theorem filterMap_eq_filterMap_iff {α β : Type} {f g : α → Option β} {l : List α}
    (h : ∀ a, f a = none → g a = none) :
    l.filterMap f = l.filterMap g ↔ ∀ a ∈ l, f a = g a := by
  refine ⟨fun heq => ?_, fun heq => List.filterMap_congr heq⟩
  induction l with
  | nil => simp
  | cons a l ih =>
    rw [List.forall_mem_cons]
    cases hf : f a with
    | none =>
      rw [List.filterMap_cons_none hf, List.filterMap_cons_none (h a hf)] at heq
      exact ⟨(h a hf).symm, ih heq⟩
    | some b =>
      rw [List.filterMap_cons_some hf] at heq
      cases hg : g a with
      | none =>
        -- the second list would be the longer one
        have hle : (l.filterMap g).length ≤ (l.filterMap f).length := by
          rw [List.length_filterMap_eq_countP, List.length_filterMap_eq_countP]
          refine List.countP_mono_left fun a _ hsome => ?_
          rw [Option.isSome_iff_ne_none] at hsome ⊢
          exact mt (h a) hsome
        rw [List.filterMap_cons_none hg] at heq
        rw [← heq, List.length_cons] at hle
        omega
      | some b' =>
        rw [List.filterMap_cons_some hg] at heq
        obtain ⟨rfl, hrest⟩ := List.cons.inj heq
        exact ⟨rfl, ih hrest⟩

theorem valid_of_uri? {t : Term} (h : t.uri?.isSome = true) : t.valid = true := by
  obtain ⟨operator, value⟩ := t
  cases value with
  | uri u => rfl
  | _ => cases h

/-- No source is documented where there is none. -/
theorem documented?_eq_none {terms : List Term} (h : collected? terms = none) :
    documented? terms = none := by
  cases terms with
  | nil => rfl
  | cons t rest =>
    have hsome := isSome_ofTerm? (lastHint? rest).join (nextHint? rest) t
    rw [collected?] at h
    rw [h, Option.isSome_none, eq_comm, Option.isSome_eq_false_iff, Option.isNone_iff_eq_none]
      at hsome
    rw [documented?, hsome, ite_self]

/-- The readings agree on a term unless it is an invalid `local()` with a name, or an address whose
last hint is another than that in the next term. -/
theorem collected?_eq_documented?_iff {t : Term} {rest : List Term} :
    collected? (t :: rest) = documented? (t :: rest) ↔
      ((installedName? t).isSome = true → t.valid = true) ∧
      (t.uri?.isSome = true → (lastHint? rest).join = nextHint? rest) := by
  rw [collected?, documented?]
  cases hu : t.uri? with
  | some u =>
    have hvalid := valid_of_uri? (t := t) (by rw [hu]; rfl)
    simp [ofTerm?, hu, hvalid]
  | none =>
    cases hname : installedName? t <;> cases ht : t.valid <;> simp [ofTerm?, hu, hname]

/-- **The readings are the same if they agree term by term.** -/
theorem ofTerms_eq_documented_iff {terms : List Term} :
    ofTerms terms = documented terms ↔ ∀ t rest, t :: rest <:+ terms →
      ((installedName? t).isSome = true → t.valid = true) ∧
      (t.uri?.isSome = true → (lastHint? rest).join = nextHint? rest) := by
  rw [ofTerms_eq, documented, filterMap_eq_filterMap_iff fun _ => documented?_eq_none]
  simp only [List.mem_tails, ← collected?_eq_documented?_iff]
  constructor
  · exact fun h t rest hsuffix => h _ hsuffix
  · intro h tail hsuffix
    cases tail with
    | nil => rfl
    | cons t rest => exact h t rest hsuffix

end FontSource

/-! ### Descriptors -/

namespace FontFaceRule

variable {r : FontFaceRule} {front back : List Declaration} {src : Declaration}

/-- Of several descriptors of a name the last counts. -/
theorem descriptor?_eq {name : String} (hitems : r.items = front ++ src :: back)
    (hsrc : src.header.property = name) (hback : ∀ d ∈ back, d.header.property ≠ name) :
    r.descriptor? name = some src.items := by
  have hnone : back.reverse.find? (fun d => d.header.property = name) = none := by
    simpa using hback
  rw [descriptor?, hitems, List.reverse_append, List.reverse_cons, List.find?_append,
    List.find?_append, hnone]
  simp [hsrc]

/-- **Font sources are read as documented, unless a function is used that is invalid or stands
apart.** The sources of a rule are those that the terms of its last `src` descriptor denote one by
one, each address with the hint in the next term, if and only if every `local()` that gives a name
is valid, and the last `format()` between each address and the next source gives the hint that is
in the term right behind the address. -/
theorem sources_eq_documented_iff (hitems : r.items = front ++ src :: back)
    (hsrc : src.header.property = "src") (hback : ∀ d ∈ back, d.header.property ≠ "src") :
    r.sources = FontSource.documented src.items ↔ ∀ t rest, t :: rest <:+ src.items →
      ((FontSource.installedName? t).isSome = true → t.valid = true) ∧
      (t.uri?.isSome = true → (FontSource.lastHint? rest).join = FontSource.nextHint? rest) := by
  rw [sources, descriptor?_eq hitems hsrc hback, Option.getD_some]
  exact FontSource.ofTerms_eq_documented_iff

/-- The descriptor `src: url("a") FORMAT(woff), url("b"), local(Open Sans)`. -/
def twoAddresses : Declaration :=
  ⟨⟨"src", false⟩,
    [⟨none, .uri ⟨"a", none⟩⟩, ⟨some .space, .call ⟨"FORMAT", [⟨none, .ident "woff"⟩], true⟩⟩,
      ⟨some .comma, .uri ⟨"b", none⟩⟩,
      ⟨some .comma,
        .call ⟨"local", [⟨none, .ident "Open"⟩, ⟨some .space, .ident "Sans"⟩], true⟩⟩], none⟩

/-- The descriptors `src: url("old")`, `twoAddresses` and `font-style`. -/
def replacedSource : FontFaceRule :=
  ⟨⟨none⟩, [⟨⟨"src", false⟩, [⟨none, .uri ⟨"old", none⟩⟩], none⟩, twoAddresses,
    ⟨⟨"font-style", false⟩, [], none⟩], none⟩

/-- A hint is for the address in front of it alone, and a later descriptor replaces an earlier
one. -/
theorem sources_replacedSource :
    (∃ front back, replacedSource.items = front ++ twoAddresses :: back ∧
      twoAddresses.header.property = "src" ∧ ∀ d ∈ back, d.header.property ≠ "src") ∧
    replacedSource.sources = FontSource.documented twoAddresses.items ∧
    FontSource.documented twoAddresses.items =
      [.url ⟨"a", none⟩ (some "woff"), .url ⟨"b", none⟩ none, .installed "Open Sans"] := by
  have hitems : replacedSource.items = [⟨⟨"src", false⟩, [⟨none, .uri ⟨"old", none⟩⟩], none⟩] ++
      twoAddresses :: [⟨⟨"font-style", false⟩, [], none⟩] := rfl
  have hback : ∀ d ∈ [(⟨⟨"font-style", false⟩, [], none⟩ : Declaration)],
      d.header.property ≠ "src" := by decide
  refine ⟨⟨_, _, hitems, rfl, hback⟩, ?_, by decide⟩
  refine (sources_eq_documented_iff hitems rfl hback).mpr fun t rest hsuffix => ?_
  simp only [twoAddresses, List.suffix_cons_iff, List.suffix_nil, List.cons.injEq, reduceCtorEq,
    or_false] at hsuffix
  obtain ⟨rfl, rfl⟩ | ⟨rfl, rfl⟩ | ⟨rfl, rfl⟩ | ⟨rfl, rfl⟩ := hsuffix <;> decide

/-- The descriptor `src: url("a") x format("woff"), local("Arial", -)`. Its last function is
invalid. -/
def hintApart : Declaration :=
  ⟨⟨"src", false⟩,
    [⟨none, .uri ⟨"a", none⟩⟩, ⟨some .space, .ident "x"⟩,
      ⟨some .space, .call (.ofArgs "format" [⟨none, .string "woff"⟩])⟩,
      ⟨some .comma,
        .call (.ofArgs "local" [⟨none, .string "Arial"⟩, ⟨some .comma, .delimiter .minus⟩])⟩], none⟩

/-- A hint that is not in the next term is taken nevertheless, and an invalid `local()` is a source
nevertheless. -/
theorem sources_hintApart :
    sources ⟨⟨none⟩, [hintApart], none⟩ = [.url ⟨"a", none⟩ (some "woff"), .installed "Arial"] ∧
      FontSource.documented hintApart.items = [.url ⟨"a", none⟩ none] := by
  decide

end FontFaceRule

end CssModel
