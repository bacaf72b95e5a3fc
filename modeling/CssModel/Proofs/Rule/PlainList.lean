import CssModel.Proofs.Rule.Belonging
import Mathlib.Data.List.InsertIdx

/-!
# Containers as plain lists

Whatever it is called and whatever it is for, a container is a list under a header. A run of edits
leads to the items that the same edits of a plain list lead to, and hands back the same items on the
way. Links to style sheets are left out of this comparison, since containers write them as items
enter and leave.

An edit that fails leaves no trace. To say so, edits are performed here step by step, in a state
that outlives a failure: an item is prepared, the index is checked, the remembered content is
forgotten, and only then the items change. Had the check come later, the container would be left
half changed. `Container.apply` has nothing to undo, since it gives no container at all when it
fails; that the two come to the same is therefore part of what has to be shown.

## Main definitions

* `CssModel.Linkable`: items apart from their links
* `CssModel.Edit.attemptOnList`, `CssModel.Edit.fault?`: edits of plain lists, and what is wrong
  with an index
* `CssModel.Container.perform`: an edit, step by step
* `CssModel.BehavesAsList`
* `CssModel.Keyframe.Call`: edits of a keyframe, and other offsets for it

## Main results

* `CssModel.Edit.onList_map`: edits of lists go with functions on items
* `CssModel.Container.run_perform`
* `CssModel.behavesAsList`
* `CssModel.containers_behaveAsLists`
-/

namespace CssModel

/-! ### Runs -/

section Runs

variable {σ τ ι ρ ρ' δ : Type}

/-- Calls one after the other, with what each of them gives. -/
def runAll (call : σ → ι → ρ × σ) (s : σ) : List ι → List ρ × σ
  | [] => ([], s)
  | i :: is => ((call s i).1 :: (runAll call (call s i).2 is).1, (runAll call (call s i).2 is).2)

theorem runAll_invariant {call : σ → ι → ρ × σ} {P : σ → Prop} (h : ∀ s i, P s → P (call s i).2)
    {s : σ} (hs : P s) (is : List ι) : P (runAll call s is).2 := by
  induction is generalizing s with
  | nil => exact hs
  | cons i is ih => exact ih (h s i hs)

/-- Two runs that look alike call by call look alike. -/
theorem runAll_alike {call : σ → ι → ρ × σ} {call' : τ → ι → ρ' × τ} {R : σ → τ → Prop}
    {view : ρ → δ} {view' : ρ' → δ}
    (h : ∀ s t i, R s t → view (call s i).1 = view' (call' t i).1 ∧ R (call s i).2 (call' t i).2)
    {s : σ} {t : τ} (hst : R s t) (is : List ι) :
    (runAll call s is).1.map view = (runAll call' t is).1.map view' ∧
      R (runAll call s is).2 (runAll call' t is).2 := by
  induction is generalizing s t with
  | nil => exact ⟨rfl, hst⟩
  | cons i is ih =>
    obtain ⟨hview, hnext⟩ := h s t i hst
    obtain ⟨hviews, hlast⟩ := ih hnext
    refine ⟨?_, hlast⟩
    rw [runAll, runAll, List.map_cons, List.map_cons, hview, hviews]

end Runs

/-! ### Edits of plain lists -/

/-- What an edit of other items gives. -/
def Edited.map {α β : Type} (f : α → β) (edited : Edited α (List α)) : Edited β (List β) :=
  ⟨edited.displaced.map f, edited.result.map f⟩

namespace Edit

variable {α β γ : Type}

theorem map_map (f : α → β) (g : β → γ) (e : Edit α) : (e.map f).map g = e.map (g ∘ f) := by
  cases e <;> simp [map]

/-- **Edits of lists go with functions on items.** -/
theorem onList_map (f : α → β) (items : List α) (e : Edit α) :
    (e.map f).onList (items.map f) = (e.onList items).map (Edited.map f) := by
  cases e with
  | push item => simp [map, onList, Edited.map]
  | insert index item =>
    by_cases hle : index ≤ items.length
    · simp [map, onList, Edited.map, hle, List.map_insertIdx]
    · simp [map, onList, hle]
  | set index item =>
    simp only [map, onList, List.getElem?_map, Option.map_map]
    congr 1
    funext old
    simp [Edited.map, List.map_set]
  | remove index =>
    simp only [map, onList, List.getElem?_map, Option.map_map]
    congr 1
    funext old
    simp [Edited.map, List.eraseIdx_map]
  | replaceAll new => rfl
  | unlock => rfl

/-- An edit of a plain list, and the list after it. An edit that does not fit leaves the list as it
is and gives nothing, not even that no item had to leave. -/
def attemptOnList (items : List α) (e : Edit α) : Option (Option α) × List α :=
  match e.onList items with
  | some edited => (some edited.displaced, edited.result)
  | none => (none, items)

theorem attemptOnList_map (f : α → β) (items : List α) (e : Edit α) :
    (e.map f).attemptOnList (items.map f) =
      ((e.attemptOnList items).1.map (Option.map f), (e.attemptOnList items).2.map f) := by
  rw [attemptOnList, onList_map, attemptOnList]
  cases e.onList items <;> rfl

/-- What is wrong with an edit of so many items: an item may be inserted behind the last one, but
not further behind, and only what is there can be replaced or removed. -/
def fault? (length : Nat) : Edit α → Option ArgumentFault
  | .insert index _ => if length < index then some (.itemIndex index length) else none
  | .set index _ | .remove index =>
    if length ≤ index then some (.itemIndex index length) else none
  | .push _ | .replaceAll _ | .unlock => none

end Edit

/-! ### Step by step -/

/-- Steps on a container, of which those before a failure stay done. -/
abbrev Stepwise (η α : Type) := ExceptT Failure (StateM (Container η α))

namespace Container

variable {η α : Type}

/-- The first index that is not allowed; an item may also be placed behind the last one. -/
def limit (c : Container η α) (behindLast : Bool) : Nat :=
  if behindLast then c.length + 1 else c.length

/-- Fails at an index that is not allowed. -/
def checkIndex (index : Nat) (behindLast : Bool) : Stepwise η α PUnit := do
  let c ← get
  if index < c.limit behindLast then return ()
  throw (c.outOfRange index)

/-- Nothing is remembered any more. -/
def forget : Stepwise η α PUnit :=
  modify fun c => { c with remembered := none }

def changeItems (f : List α → List α) : Stepwise η α PUnit :=
  modify fun c => { c with items := f c.items }

/-- A check changes nothing, and decides whether the rest is done. -/
theorem run_checkIndex_bind {β : Type} (index : Nat) (behindLast : Bool)
    (rest : PUnit → Stepwise η α β) (c : Container η α) :
    (checkIndex index behindLast >>= rest).run.run c =
      if index < c.limit behindLast then (rest ⟨⟩).run.run c
      else (.error (c.outOfRange index), c) := by
  have hcheck : (checkIndex index behindLast).run.run c =
      if index < c.limit behindLast then (.ok ⟨⟩, c) else (.error (c.outOfRange index), c) := by
    change (ite _ (pure ⟨⟩) (throw (c.outOfRange index)) : Stepwise η α PUnit).run.run c = _
    split <;> rfl
  split
  · next hlt => exact run_bind_of_ok (hcheck.trans (if_pos hlt))
  · next hlt => exact run_bind_of_error (hcheck.trans (if_neg hlt))

variable [ItemPolicy η α]

/-- The items change, and the one at the index is handed back. -/
def displace (index : Nat) (f : List α → List α) : Stepwise η α (Option α) := do
  checkIndex index false
  forget
  let old := (← get).items[index]?
  changeItems f
  return old.map (ItemPolicy.leave (← get).header)

/-- An edit, step by step. -/
def perform : Edit α → Stepwise η α (Option α)
  | .push item => do
    let item := (← get).entering item
    forget
    changeItems (· ++ [item])
    return none
  | .insert index item => do
    let item := (← get).entering item
    checkIndex index true
    forget
    changeItems (·.insertIdx index item)
    return none
  | .set index item => do
    let item := (← get).entering item
    displace index (·.set index item)
  | .remove index => displace index (·.eraseIdx index)
  | .replaceAll items => do
    let items := items.map (← get).entering
    forget
    changeItems fun _ => items
    return none
  | .unlock => do
    forget
    changeItems fun _ => []
    return none

theorem run_displace (index : Nat) (f : List α → List α) (c : Container η α) :
    (displace index f).run.run c =
      match c.items[index]? with
      | some old => (.ok (some (ItemPolicy.leave c.header old)), c.withItems (f c.items))
      | none => (.error (c.outOfRange index), c) := by
  refine (run_checkIndex_bind index false _ c).trans ?_
  by_cases hlt : index < c.limit false
  · have hold : c.items[index]? = some c.items[index] := List.getElem?_eq_getElem hlt
    rw [if_pos hlt, hold]
    change (Except.ok (c.items[index]?.map _), _) = _
    rw [hold]
    rfl
  · rw [if_neg hlt, List.getElem?_eq_none (Nat.le_of_not_lt hlt)]

/-- **Step by step an edit comes to the same**: a failure leaves the container as it was. -/
theorem run_perform (c : Container η α) (e : Edit α) : (perform e).run.run c = c.attempt e := by
  cases e with
  | push item => rfl
  | insert index item =>
    refine (run_checkIndex_bind index true _ c).trans ?_
    by_cases hlt : index < c.limit true
    · rw [if_pos hlt, attempt, apply, insert, if_pos (Nat.le_of_lt_succ hlt)]
      rfl
    · rw [if_neg hlt, attempt, apply, insert, if_neg fun hle => hlt (Nat.lt_succ_of_le hle)]
      rfl
  | set index item =>
    refine (run_displace index (·.set index (c.entering item)) c).trans ?_
    rw [attempt, apply, set]
    cases c.items[index]? <;> rfl
  | remove index =>
    refine (run_displace index (·.eraseIdx index) c).trans ?_
    rw [attempt, apply, remove]
    cases c.items[index]? <;> rfl
  | replaceAll items => rfl
  | unlock => rfl

/-- Edits one after the other, each of them step by step. -/
def run (c : Container η α) (edits : List (Edit α)) :
    List (Except Failure (Option α)) × Container η α :=
  runAll (fun c e => (perform e).run.run c) c edits

/-! ### One edit, and the edit of the plain list -/

variable (c : Container η α) (e : Edit α)

/-- An attempt is one on the plain list of items, as the items enter and leave. -/
theorem attempt_asOnList :
    (c.attempt e).1.toOption =
        ((e.map c.entering).attemptOnList c.items).1.map (Option.map (ItemPolicy.leave c.header)) ∧
      (c.attempt e).2.items = ((e.map c.entering).attemptOnList c.items).2 := by
  have happly := toOption_apply c e
  rw [attempt, Edit.attemptOnList]
  cases hedited : (e.map c.entering).onList c.items with
  | none =>
    cases hresult : c.apply e with
    | error failure => exact ⟨rfl, rfl⟩
    | ok edited => simp [hedited, hresult, Except.toOption] at happly
  | some edited =>
    cases hresult : c.apply e with
    | error failure => simp [hedited, hresult, Except.toOption] at happly
    | ok result =>
      obtain rfl : result = _ := by simpa [hedited, hresult, Except.toOption] using happly
      exact ⟨rfl, rfl⟩

/-- An edit fails at an index out of range, and for no other reason. -/
theorem attempt_eq_error_iff {failure : Failure} :
    (c.attempt e).1 = .error failure ↔
      ∃ fault, e.fault? c.length = some fault ∧ failure = .invalidArgument fault := by
  cases e with
  | push | replaceAll | unlock => simp [attempt, apply, Edit.fault?]
  | insert index item =>
    by_cases hle : index ≤ c.length
    · simp [attempt, apply, insert, Edit.fault?, hle, Nat.not_lt_of_le hle, Except.map]
    · simp [attempt, apply, insert, Edit.fault?, hle, Nat.lt_of_not_le hle, Except.map, outOfRange,
        eq_comm]
  | set index item =>
    by_cases hle : c.length ≤ index
    · simp [attempt, apply, set, Edit.fault?, hle, List.getElem?_eq_none hle, Except.map,
        outOfRange, eq_comm]
    · simp [attempt, apply, set, Edit.fault?, hle, List.getElem?_eq_getElem (Nat.lt_of_not_le hle),
        Except.map]
  | remove index =>
    by_cases hle : c.length ≤ index
    · simp [attempt, apply, remove, Edit.fault?, hle, List.getElem?_eq_none hle, Except.map,
        outOfRange, eq_comm]
    · simp [attempt, apply, remove, Edit.fault?, hle,
        List.getElem?_eq_getElem (Nat.lt_of_not_le hle), Except.map]

end Container

/-! ### Up to links -/

/-- Values that may be linked to style sheets. -/
class Linkable (α : Type) where
  /-- The value, linked to no sheet. -/
  unlinked : α → α := id

open Linkable (unlinked)

/-- Items are linked as they enter and as they leave, and otherwise stay as they are. -/
class OnlyLinks (η α : Type) [ItemPolicy η α] [Linkable α] : Prop where
  unlinked_enter : ∀ (header : η) (a : α), unlinked (ItemPolicy.enter header a) = unlinked a := by
    exact fun _ _ => rfl
  unlinked_leave : ∀ (header : η) (a : α), unlinked (ItemPolicy.leave header a) = unlinked a := by
    exact fun _ _ => rfl

/-- **What it means that containers behave like plain lists.** -/
structure BehavesAsList (η α : Type) [ItemPolicy η α] [Linkable α] : Prop where
  /-- Up to links, a run gives what the same run on a plain list gives: the same items in the end,
  the same items handed back on the way, and failures in the same places. -/
  run : ∀ (c : Container η α) (edits : List (Edit α)),
    ((c.run edits).1.map fun outcome => outcome.toOption.map (Option.map unlinked)) =
        (runAll Edit.attemptOnList c.items edits).1.map (Option.map (Option.map unlinked)) ∧
      (c.run edits).2.items.map unlinked = (runAll Edit.attemptOnList c.items edits).2.map unlinked
  /-- An edit fails at an index out of range only, and says so. -/
  fails_iff : ∀ (c : Container η α) (e : Edit α) (failure : Failure),
    (∃ c', (Container.perform e).run.run c = (.error failure, c')) ↔
      ∃ fault, e.fault? c.length = some fault ∧ failure = .invalidArgument fault
  /-- An edit that fails leaves all as it was: items, header and what is remembered. -/
  atomic : ∀ {c c' : Container η α} {e : Edit α} {failure : Failure},
    (Container.perform e).run.run c = (.error failure, c') → c' = c
  /-- What is performed step by step is the edit itself. -/
  perform_eq : ∀ (c : Container η α) (e : Edit α), (Container.perform e).run.run c = c.attempt e
  header : ∀ (c : Container η α) (edits : List (Edit α)), (c.run edits).2.header = c.header

section BehavesAsList

variable {η α : Type} [ItemPolicy η α] [Linkable α]

/-- Lists that are alike up to links stay so under the same edit. -/
theorem Edit.attemptOnList_alike (e : Edit α) {items items' : List α}
    (h : items.map unlinked = items'.map unlinked) {enter : α → α}
    (henter : ∀ a, unlinked (enter a) = unlinked a) :
    ((e.map enter).attemptOnList items).1.map (Option.map unlinked) =
        (e.attemptOnList items').1.map (Option.map unlinked) ∧
      ((e.map enter).attemptOnList items).2.map unlinked =
        (e.attemptOnList items').2.map unlinked := by
  have hentered : (e.map enter).map unlinked = e.map unlinked := by
    rw [Edit.map_map]
    exact congrArg e.map (funext henter)
  obtain ⟨hfirst, hfirst'⟩ := Prod.ext_iff.mp (attemptOnList_map unlinked items (e.map enter))
  obtain ⟨hsecond, hsecond'⟩ := Prod.ext_iff.mp (attemptOnList_map unlinked items' e)
  rw [hentered, h] at hfirst hfirst'
  exact ⟨hfirst.symm.trans hsecond, hfirst'.symm.trans hsecond'⟩

variable [OnlyLinks η α]

theorem Container.run_alike (c : Container η α) (edits : List (Edit α)) :
    ((c.run edits).1.map fun outcome => outcome.toOption.map (Option.map unlinked)) =
        (runAll Edit.attemptOnList c.items edits).1.map (Option.map (Option.map unlinked)) ∧
      (c.run edits).2.items.map unlinked =
        (runAll Edit.attemptOnList c.items edits).2.map unlinked := by
  refine runAll_alike
    (R := fun (c : Container η α) (items : List α) => c.items.map unlinked = items.map unlinked)
    (fun c items e h => ?_) rfl edits
  obtain ⟨houtcome, hitems⟩ := Edit.attemptOnList_alike e h (OnlyLinks.unlinked_enter c.header)
  obtain ⟨hcontainer, hcontainer'⟩ := c.attempt_asOnList e
  rw [run_perform, hcontainer, hcontainer', ← houtcome, Option.map_map]
  refine ⟨congrArg (Option.map · _) (funext fun displaced => ?_), hitems⟩
  rw [Function.comp, Option.map_map]
  exact congrArg (Option.map · displaced) (funext (OnlyLinks.unlinked_leave c.header))

/-- **Containers behave like plain lists** as soon as their headers touch nothing but links. -/
theorem behavesAsList : BehavesAsList η α where
  run := Container.run_alike
  fails_iff c e failure := by
    rw [← Container.attempt_eq_error_iff, Container.run_perform]
    exact ⟨fun ⟨_, h⟩ => congrArg Prod.fst h, fun h => ⟨_, Prod.ext h rfl⟩⟩
  atomic {c c' e failure} h := by
    rw [Container.run_perform] at h
    obtain ⟨_, hsame⟩ | ⟨edited, -, hedited⟩ := Container.attempt_cases c e
    · rw [hsame] at h
      exact (congrArg Prod.snd h).symm
    · rw [hedited] at h
      exact absurd (congrArg Prod.fst h) (by simp)
  perform_eq := Container.run_perform
  header c edits := by
    refine runAll_invariant (P := fun c' : Container η α => c'.header = c.header)
      (fun c' e h => ?_) rfl edits
    rw [Container.run_perform, Container.header_attempt, h]

end BehavesAsList

/-! ### Items of every sort -/

instance : Linkable Term where

instance : Linkable Declaration where

instance : Linkable Keyframe where

instance : Linkable PageItem where

instance : Linkable StyleRule := ⟨StyleRule.withLink none⟩

instance : Linkable Rule := ⟨Rule.withLink none⟩

instance : OnlyLinks DeclarationHead Term where

instance : OnlyLinks StyleHead Declaration where

instance : OnlyLinks KeyframesHead Keyframe where

instance : OnlyLinks KeyframeHead Declaration where

instance : OnlyLinks FontFaceHead Declaration where

instance : OnlyLinks MarginHead Declaration where

instance : OnlyLinks PageHead PageItem where

instance : OnlyLinks ViewportHead Declaration where

instance : OnlyLinks MediaHead StyleRule where

/-- The last link is the one that counts. -/
theorem Rule.withLink_withLink (link link' : Option SheetLink) (r : Rule) :
    (r.withLink link).withLink link' = r.withLink link' := by
  cases r with
  | media r =>
    refine congrArg (fun items => Rule.media ⟨{ r.header with link := link' }, items, none⟩) ?_
    exact List.map_map.trans (List.map_congr_left fun _ _ => rfl)
  | style | keyframes | fontFace | page | viewport => rfl

instance : OnlyLinks SheetHead Rule where
  unlinked_enter _ := Rule.withLink_withLink _ none
  unlinked_leave _ := Rule.withLink_withLink none none

/-! ### Keyframes -/

namespace Keyframe

/-- A call on a keyframe. -/
inductive Call
  | edit (e : Edit Declaration)
  | setOffsets (offsets : List Term)

/-- A call, step by step: other offsets are checked before they take the place of the old ones. -/
def performCall : Call → Stepwise KeyframeHead Declaration (Option Declaration)
  | .edit e => Container.perform e
  | .setOffsets offsets =>
    match checkOffsets offsets with
    | .error failure => throw failure
    | .ok offsets => do
      modify fun k => { k with header.offsets := offsets }
      return none

/-- Calls one after the other. -/
def run (k : Keyframe) (calls : List Call) :
    List (Except Failure (Option Declaration)) × Keyframe :=
  runAll (fun k call => (performCall call).run.run k) k calls

/-- Other offsets, step by step, are the other offsets or the failure. -/
theorem run_setOffsets (k : Keyframe) (offsets : List Term) :
    (performCall (.setOffsets offsets)).run.run k =
      match k.withOffsets offsets with
      | .ok k' => (.ok none, k')
      | .error failure => (.error failure, k) := by
  rw [performCall, withOffsets]
  cases checkOffsets offsets <;> rfl

/-- There is an offset, and all of them are percentages. -/
def HasOffsets (k : Keyframe) : Prop :=
  k.header.offsets ≠ [] ∧ ∀ t ∈ k.header.offsets, t.isPercentage

theorem checkOffsets_eq_ok_iff {offsets checked : List Term} :
    checkOffsets offsets = .ok checked ↔
      (offsets ≠ [] ∧ ∀ t ∈ offsets, t.isPercentage) ∧ checked = offsets := by
  rw [checkOffsets]
  split
  · next hempty => simp_all
  · next hempty =>
    split
    · next hall =>
      have hoffsets : offsets ≠ [] ∧ ∀ t ∈ offsets, t.isPercentage :=
        ⟨by simpa using hempty, List.all_eq_true.mp hall⟩
      rw [and_iff_right hoffsets, Except.ok.injEq, eq_comm]
    · next hall =>
      exact ⟨fun h => absurd h (by simp), fun h => absurd (List.all_eq_true.mpr h.1.2) hall⟩

theorem hasOffsets_of_make {offsets : List Term} {k : Keyframe} (h : make offsets = .ok k) :
    k.HasOffsets := by
  rw [make] at h
  cases hcheck : checkOffsets offsets with
  | error failure => simp [hcheck, Except.map] at h
  | ok checked =>
    obtain rfl : Container.empty ⟨checked⟩ = k := by simpa [hcheck, Except.map] using h
    obtain ⟨hoffsets, rfl⟩ := checkOffsets_eq_ok_iff.mp hcheck
    exact hoffsets

theorem HasOffsets.performCall {k : Keyframe} (h : k.HasOffsets) (call : Call) :
    HasOffsets ((performCall call).run.run k).2 := by
  cases call with
  | edit e =>
    rw [HasOffsets, Keyframe.performCall, Container.run_perform, Container.header_attempt]
    exact h
  | setOffsets offsets =>
    rw [run_setOffsets, withOffsets]
    cases hcheck : checkOffsets offsets with
    | error failure => exact h
    | ok checked =>
      obtain ⟨hoffsets, rfl⟩ := checkOffsets_eq_ok_iff.mp hcheck
      exact hoffsets

theorem HasOffsets.run {k : Keyframe} (h : k.HasOffsets) (calls : List Call) :
    HasOffsets (k.run calls).2 :=
  runAll_invariant (fun _ call hk => hk.performCall call) h calls

end Keyframe

/-! ### All containers -/

/-- **Every container behaves like a plain list and fails without a trace**; and whatever is done
to a keyframe, its offsets stay percentages, and there stays one. -/
theorem containers_behaveAsLists :
    BehavesAsList DeclarationHead Term ∧ BehavesAsList StyleHead Declaration ∧
      BehavesAsList MediaHead StyleRule ∧ BehavesAsList KeyframesHead Keyframe ∧
      BehavesAsList KeyframeHead Declaration ∧ BehavesAsList FontFaceHead Declaration ∧
      BehavesAsList MarginHead Declaration ∧ BehavesAsList PageHead PageItem ∧
      BehavesAsList ViewportHead Declaration ∧ BehavesAsList SheetHead Rule ∧
      ∀ {offsets : List Term} {k : Keyframe}, Keyframe.make offsets = .ok k →
        ∀ calls : List Keyframe.Call, (k.run calls).2.HasOffsets :=
  ⟨behavesAsList, behavesAsList, behavesAsList, behavesAsList, behavesAsList, behavesAsList,
    behavesAsList, behavesAsList, behavesAsList, behavesAsList,
    fun h calls => (Keyframe.hasOffsets_of_make h).run calls⟩

namespace Keyframe

/-- A percentage, with nothing in front of it. -/
def percentage (value : Int32) : Term :=
  ⟨none, .numeric { Numeric.ofInt value with kind := .percent }⟩

/-- An edit of the declarations, an empty list of offsets, one that holds a name, and one that is
taken. -/
def mixedCalls : List Call :=
  [.edit (.push (.empty ⟨"color", false⟩)), .setOffsets [], .setOffsets [⟨none, .ident "from"⟩],
    .setOffsets [percentage 25, percentage 75]]

theorem hasOffsets_mixedCalls :
    make [percentage 0] = .ok (.empty ⟨[percentage 0]⟩) ∧
      (run (.empty ⟨[percentage 0]⟩) mixedCalls).2.HasOffsets :=
  have hmake : make [percentage 0] = .ok (.empty ⟨[percentage 0]⟩) := rfl
  ⟨hmake, containers_behaveAsLists.2.2.2.2.2.2.2.2.2.2 hmake mixedCalls⟩

end Keyframe

end CssModel
