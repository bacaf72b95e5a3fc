import CssModel.Color.Function
import CssModel.Proofs.Term.Groups

/-!
# Which functions are colours

A colour function goes through several stages before it gives a colour: it has to be valid, its
arguments have to be one number between any two commas, percentages among the channels are counted,
and then every channel and alpha are converted one by one. A dimension is no percentage, so the
count lets it pass, and only the conversion stops it.

What comes out is a short grammar. It speaks of nothing but the name, in any letter case, and the
kinds of the numbers in order.

## Main definitions

* `CssModel.ColorValue.AreNumbers`, `CssModel.ColorValue.AreSeparate`: single numbers between commas
* `CssModel.ColorValue.LegacyArguments`: the grammar

## Main results

* `CssModel.ColorValue.areNumbers_groups_iff`: what it means for the list of arguments
* `CssModel.ColorValue.isSome_ofChannels?_iff`, `CssModel.ColorValue.isSome_ofHue?_iff`: one lemma
  for each kind of channels
* `CssModel.Term.isSome_color?_call_iff`
-/

namespace CssModel

namespace ColorValue

/-! ### Single numbers -/

/-- Every group is a single number, whatever stands in front of it. -/
def AreNumbers (groups : List (List Term)) (args : List Numeric) : Prop :=
  List.Forall₂ (fun group n => ∃ operator, group = [⟨operator, .numeric n⟩]) groups args

/-- The terms are these numbers, and all of them but the first follow a comma. -/
structure AreSeparate (terms : List Term) (args : List Numeric) : Prop where
  values : terms.map Joined.value = args.map Value.numeric
  commas : ∀ t ∈ terms.tail, FunctionCall.followsComma t = true

theorem single?_eq_some_iff {group : List Term} {n : Numeric} :
    single? group = some n ↔ ∃ operator, group = [⟨operator, .numeric n⟩] := by
  constructor
  · intro h
    rw [single?.eq_def] at h
    split at h
    · next t =>
      obtain ⟨operator, value⟩ := t
      cases value <;> cases h
      exact ⟨operator, rfl⟩
    · cases h
  · rintro ⟨operator, rfl⟩
    rfl

theorem mapM_single?_eq_some_iff {groups : List (List Term)} {args : List Numeric} :
    groups.mapM single? = some args ↔ AreNumbers groups args := by
  induction groups generalizing args with
  | nil => simp [AreNumbers, eq_comm]
  | cons group groups ih =>
    simp only [List.mapM_cons, bind, pure, Option.bind_eq_some_iff, single?_eq_some_iff, ih,
      Option.some.injEq, AreNumbers, List.forall₂_cons_left_iff]
    constructor
    · rintro ⟨n, hgroup, rest, hrest, rfl⟩
      exact ⟨n, rest, hgroup, hrest, rfl⟩
    · rintro ⟨n, rest, hgroup, hrest, rfl⟩
      exact ⟨n, hgroup, rest, hrest, rfl⟩

/-- A group of its own is a single number exactly if nothing else is in it. -/
theorem areSeparate_append_iff {group rest : List Term} (hgroup : FunctionCall.IsGroup group)
    (hrest : FunctionCall.BeginsWithComma rest) {args : List Numeric} :
    AreSeparate (group ++ rest) args ↔
      ∃ n others, (∃ operator, group = [⟨operator, .numeric n⟩]) ∧ AreSeparate rest others ∧
        n :: others = args := by
  obtain ⟨first, tail, rfl⟩ := List.exists_cons_of_ne_nil hgroup.ne_nil
  constructor
  · rintro ⟨hvalues, hcommas⟩
    -- nothing behind the first term may follow a comma and stay in the group
    obtain rfl : tail = [] := by
      cases tail with
      | nil => rfl
      | cons t tail =>
        have hnone := hgroup.tail t List.mem_cons_self
        rw [hcommas t List.mem_cons_self] at hnone
        cases hnone
    cases args with
    | nil => cases hvalues
    | cons n others =>
      obtain ⟨operator, value⟩ := first
      obtain ⟨hfirst, hothers⟩ := List.cons.inj hvalues
      obtain rfl : value = .numeric n := hfirst
      exact ⟨n, others, ⟨operator, rfl⟩,
        ⟨hothers, fun t ht => hcommas t (List.mem_of_mem_tail ht)⟩, rfl⟩
  · rintro ⟨n, others, ⟨operator, hone⟩, ⟨hvalues, hcommas⟩, rfl⟩
    obtain ⟨rfl, rfl⟩ := List.cons.inj hone
    refine ⟨congrArg (Value.numeric n :: ·) hvalues, fun t ht => ?_⟩
    cases rest with
    | nil => cases ht
    | cons u rest =>
      obtain rfl | ht := List.mem_cons.mp ht
      · exact hrest t rfl
      · exact hcommas t ht

/-- **Every group is a single number exactly if the arguments are numbers with a comma between any
two of them.** -/
theorem areNumbers_groups_iff {f : FunctionCall Term} {args : List Numeric} :
    AreNumbers f.groups args ↔ AreSeparate f.args args := by
  rw [FunctionCall.groups_eq]
  induction f.args using FunctionCall.group_induction generalizing args with
  | nil =>
    constructor
    · intro h
      cases h
      exact ⟨rfl, by simp⟩
    · rintro ⟨hvalues, -⟩
      obtain rfl : args = [] := by simpa using hvalues.symm
      exact .nil
  | group group rest hgroup hrest ih =>
    rw [hgroup.commaGroups_append hrest, areSeparate_append_iff hgroup hrest, AreNumbers,
      List.forall₂_cons_left_iff]
    simp only [← ih, AreNumbers]
    constructor
    · rintro ⟨n, others, hone, hothers, heq⟩
      exact ⟨n, others, hone, hothers, heq.symm⟩
    · rintro ⟨n, others, hone, hothers, heq⟩
      exact ⟨n, others, hone, hothers, heq.symm⟩

/-! ### The grammar -/

/-- Red, green and blue are all plain numbers or all percentages. -/
def AreChannels (r g b : NumericKind) : Prop :=
  (r.isPlain = true ∧ g.isPlain = true ∧ b.isPlain = true) ∨
    (r = .percent ∧ g = .percent ∧ b = .percent)

/-- A plain number, then two percentages. -/
def IsHue (h s l : NumericKind) : Prop :=
  h.isPlain = true ∧ s = .percent ∧ l = .percent

/-- A plain number or a percentage. -/
def IsAlpha (a : NumericKind) : Prop :=
  a.isPlain = true ∨ a = .percent

/-- The numbers that a colour function takes, by its name in lower case. -/
inductive LegacyArguments : String → List Numeric → Prop
  | rgb {r g b : Numeric} (h : AreChannels r.kind g.kind b.kind) : LegacyArguments "rgb" [r, g, b]
  | rgba {r g b a : Numeric} (h : AreChannels r.kind g.kind b.kind) (ha : IsAlpha a.kind) :
    LegacyArguments "rgba" [r, g, b, a]
  | hsl {h s l : Numeric} (hhue : IsHue h.kind s.kind l.kind) : LegacyArguments "hsl" [h, s, l]
  | hsla {h s l a : Numeric} (hhue : IsHue h.kind s.kind l.kind) (ha : IsAlpha a.kind) :
    LegacyArguments "hsla" [h, s, l, a]

/-! ### Channels -/

theorem isSome_channel?_iff {n : Numeric} : (channel? n).isSome = true ↔ IsAlpha n.kind := by
  rw [channel?]
  cases hkind : n.kind <;> simp [IsAlpha, NumericKind.isPlain]

theorem isSome_alpha?_iff {n : Numeric} : (alpha? n).isSome = true ↔ IsAlpha n.kind := by
  rw [alpha?]
  cases hkind : n.kind <;> simp [IsAlpha, NumericKind.isPlain]

theorem isPlain_iff {k : NumericKind} : k.isPlain = true ↔ IsAlpha k ∧ k ≠ .percent := by
  cases k <;> simp [IsAlpha, NumericKind.isPlain]

/-- The count of percentages lets dimensions pass among numbers, and the conversion stops them. -/
theorem isSome_ofChannels?_iff {r g b : Numeric} :
    (ofChannels? r g b).isSome = true ↔ AreChannels r.kind g.kind b.kind := by
  have hnone : [r, g, b].countP (fun n => n.kind = .percent) = 0 ↔
      r.kind ≠ .percent ∧ g.kind ≠ .percent ∧ b.kind ≠ .percent := by
    simp [List.countP_eq_zero]
  have hall : [r, g, b].countP (fun n => n.kind = .percent) = 3 ↔
      r.kind = .percent ∧ g.kind = .percent ∧ b.kind = .percent := by
    rw [show 3 = [r, g, b].length from rfl, List.countP_eq_length]
    simp
  have hconverted : (ofChannels? r g b).isSome = true ↔
      ([r, g, b].countP (fun n => n.kind = .percent) = 0 ∨
        [r, g, b].countP (fun n => n.kind = .percent) = 3) ∧
      IsAlpha r.kind ∧ IsAlpha g.kind ∧ IsAlpha b.kind := by
    rw [ofChannels?, ← isSome_channel?_iff, ← isSome_channel?_iff, ← isSome_channel?_iff]
    cases channel? r <;> cases channel? g <;> cases channel? b <;> simp
  rw [hconverted, hnone, hall, AreChannels, isPlain_iff, isPlain_iff, isPlain_iff]
  constructor
  · rintro ⟨⟨hr, hg, hb⟩ | hpercents, hr', hg', hb'⟩
    · exact .inl ⟨⟨hr', hr⟩, ⟨hg', hg⟩, ⟨hb', hb⟩⟩
    · exact .inr hpercents
  · rintro (⟨⟨hr', hr⟩, ⟨hg', hg⟩, ⟨hb', hb⟩⟩ | ⟨hr, hg, hb⟩)
    · exact ⟨.inl ⟨hr, hg, hb⟩, hr', hg', hb'⟩
    · exact ⟨.inr ⟨hr, hg, hb⟩, .inr hr, .inr hg, .inr hb⟩

theorem isSome_ofHue?_iff {h s l : Numeric} :
    (ofHue? h s l).isSome = true ↔ IsHue h.kind s.kind l.kind := by
  simp [ofHue?, IsHue, and_assoc]

theorem isSome_withAlpha?_none {channels : Option (UInt8 × UInt8 × UInt8)} :
    (withAlpha? channels none).isSome = channels.isSome := by
  cases channels <;> rfl

theorem isSome_withAlpha?_some_iff {channels : Option (UInt8 × UInt8 × UInt8)} {n : Numeric} :
    (withAlpha? channels (some n)).isSome = true ↔ channels.isSome = true ∧ IsAlpha n.kind := by
  rw [← isSome_alpha?_iff]
  cases channels with
  | none => simp [withAlpha?]
  | some channels => cases hn : alpha? n <;> simp [withAlpha?, hn]

/-! ### Functions -/

theorem isSome_ofCall?_iff {f : FunctionCall Term} :
    (ofCall? f).isSome = true ↔ f.valid = true ∧ ∃ args, AreNumbers f.groups args ∧
      LegacyArguments (Ascii.lower f.name) args := by
  simp only [← mapM_single?_eq_some_iff, ofCall?]
  cases f.valid with
  | false => simp
  | true =>
    cases hargs : f.groups.mapM single? with
    | none => simp
    | some args =>
      generalize Ascii.lower f.name = name
      simp only [if_true, Option.bind_eq_bind, Option.bind_some, Option.some.injEq, true_and,
        exists_eq_left']
      constructor
      · intro h
        split at h
        · exact .rgb (isSome_ofChannels?_iff.mp (isSome_withAlpha?_none ▸ h))
        · obtain ⟨hchannels, ha⟩ := isSome_withAlpha?_some_iff.mp h
          exact .rgba (isSome_ofChannels?_iff.mp hchannels) ha
        · exact .hsl (isSome_ofHue?_iff.mp (isSome_withAlpha?_none ▸ h))
        · obtain ⟨hhue, ha⟩ := isSome_withAlpha?_some_iff.mp h
          exact .hsla (isSome_ofHue?_iff.mp hhue) ha
        · cases h
      · intro h
        cases h with
        | rgb h => exact isSome_withAlpha?_none ▸ isSome_ofChannels?_iff.mpr h
        | rgba h ha => exact isSome_withAlpha?_some_iff.mpr ⟨isSome_ofChannels?_iff.mpr h, ha⟩
        | hsl hhue => exact isSome_withAlpha?_none ▸ isSome_ofHue?_iff.mpr hhue
        | hsla hhue ha => exact isSome_withAlpha?_some_iff.mpr ⟨isSome_ofHue?_iff.mpr hhue, ha⟩

end ColorValue

open ColorValue in
/-- **The functions that stand for a colour are those of the legacy grammar.** They are valid, every
group of their arguments is a single number, and the kinds of the numbers are those that the name
asks for, in any letter case. The groups are single numbers exactly if the arguments are numbers
with a comma between any two. The operator in front of the function makes no difference. -/
theorem Term.isSome_color?_call_iff (f : FunctionCall Term) :
    ((ofCall? f).isSome = true ↔ f.valid = true ∧ ∃ args, AreNumbers f.groups args ∧
      LegacyArguments (Ascii.lower f.name) args) ∧
    (∀ args, AreNumbers f.groups args ↔ AreSeparate f.args args) ∧
    ∀ operator, Term.color? ⟨operator, .call f⟩ = ofCall? f :=
  ⟨isSome_ofCall?_iff, fun _ => areNumbers_groups_iff, fun _ => rfl⟩

end CssModel
