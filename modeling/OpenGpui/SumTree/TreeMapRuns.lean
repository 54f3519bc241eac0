/-
Every run of an ordered map follows a finite map on which the same operations are performed,
when no batch repeats a key and no range is removed that ends before a key in front of it.
-/
import OpenGpui.SumTree.TreeMapSteps

namespace OpenGpui.SumTrees

open Option TreeMap SliceSort MapEntry

universe u v

inductive TreeMapCommand (K : Type u) (V : Type v) (R σ : Type) [LinearOrder K] where
  | insert (key : K) (value : V)
  | insertOrReplace (key : K) (value : V)
  | extend (pairs : List (K × V))
  | insertTree (other : TreeMap K V)
  | remove (key : K)
  | removeRange (start stop : MapSeekTarget K)
  | update (key : K) (f : V → R × V)
  | retain (predicate : σ → K → V → Bool × σ) (state : σ)

inductive TreeMapAnswer (V : Type v) (R σ : Type) where
  | done
  | value (value : Option V)
  | updated (result : Option R)
  | retained (state : σ)

variable {K : Type u} {V : Type v} {R σ : Type} [LinearOrder K]

namespace TreeMap

variable (sort : SliceSort (Edit (MapEntry K V) (MapKey K))) (self : TreeMap K V)

def step : TreeMapCommand K V R σ →
    Option (TreeMapAnswer V R σ × TreeMap K V)
  | .insert key value => (self.insert key value).map fun next => (.done, next)
  | .insertOrReplace key value =>
    (self.insertOrReplace key value).map fun result => (.value result.1, result.2)
  | .extend pairs => (self.extend sort pairs).map fun next => (.done, next)
  | .insertTree other => (self.insertTree sort other).map fun next => (.done, next)
  | .remove key => (self.remove key).map fun result => (.value result.1, result.2)
  | .removeRange start stop => (self.removeRange start stop).map fun next => (.done, next)
  | .update key f => (self.update key f).map fun result => (.updated result.1, result.2)
  | .retain predicate state =>
    (self.retain predicate state).map fun result => (.retained result.1, result.2)

def machine (R σ : Type) : Machine (TreeMap K V) (TreeMapCommand K V R σ) (TreeMapAnswer V R σ)
    where
  step := step sort

/-- No key twice in a batch, and no key of the map behind the end of a range and in front of its
start. -/
def Meets : TreeMapCommand K V R σ → Prop
  | .extend pairs => (pairs.map Prod.fst).Nodup
  | .removeRange start stop => ∀ entry ∈ self.tree.toList,
      start.atMost entry.key = true ∨ stop.atMost entry.key = false
  | _ => True

/-- A range between two keys in their order meets this. -/
theorem meets_removeRange {start stop : K} (hle : start ≤ stop) :
    self.Meets (.removeRange (.ofKey start) (.ofKey stop) : TreeMapCommand K V R σ) := by
  intro entry _
  rw [MapSeekTarget.atMost, MapSeekTarget.atMost, decide_eq_true_iff, decide_eq_false_iff_not,
    not_not]
  rcases lt_or_ge entry.key start with hlt | hge
  · exact .inr (compare_gt_iff_gt.mpr (hlt.trans_le hle))
  · exact .inl fun hgt => (compare_gt_iff_gt.mp hgt).not_ge hge

/-- The maps that such steps build from the empty one; an inserted map is one of them, too. -/
inductive Built (R σ : Type) : TreeMap K V → Prop
  | empty : Built R σ .empty
  | step {self next : TreeMap K V} {command : TreeMapCommand K V R σ}
      {answer : TreeMapAnswer V R σ} (built : Built R σ self) (meets : self.Meets command)
      (others : ∀ other, command = .insertTree other → Built R σ other)
      (run : self.step sort command = some (answer, next)) : Built R σ next

end TreeMap

/-- The same operations on a finite map. -/
inductive MapStep : (K → Option V) → TreeMapCommand K V R σ → TreeMapAnswer V R σ →
    (K → Option V) → Prop
  | insert (map : K → Option V) (key : K) (value : V) :
      MapStep map (.insert key value) .done (Function.update map key (some value))
  | insertOrReplace (map : K → Option V) (key : K) (value : V) :
      MapStep map (.insertOrReplace key value) (.value (map key))
        (Function.update map key (some value))
  | extend (map : K → Option V) (pairs : List (K × V)) :
      MapStep map (.extend pairs) .done (insertPairs map pairs)
  | insertTree (map : K → Option V) {other : TreeMap K V} {otherMap : K → Option V}
      (represents : other.Represents otherMap) :
      MapStep map (.insertTree other) .done fun key => (otherMap key).or (map key)
  | remove (map : K → Option V) (key : K) :
      MapStep map (.remove key) (.value (map key)) (Function.update map key none)
  | removeRange (map : K → Option V) (start stop : MapSeekTarget K) :
      MapStep map (.removeRange start stop) .done fun key =>
        if start.atMost key && !stop.atMost key then none else map key
  | update (map : K → Option V) (key : K) (f : V → R × V) :
      MapStep map (.update key f) (.updated ((map key).map fun value => (f value).1))
        (Function.update map key ((map key).map fun value => (f value).2))
  | retain (map map' : K → Option V) (predicate : σ → K → V → Bool × σ) (state : σ)
      {entries : List (MapEntry K V)}
      (before : Represents key value entries map)
      (after : Represents key value
        (kept predicate state entries).2 map') :
      MapStep map (.retain predicate state)
        (.retained (kept predicate state entries).1) map'

section Steps

variable (sort : SliceSort (Edit (MapEntry K V) (MapKey K))) {self : TreeMap K V}
  {map : K → Option V}

/-- One step is defined and is one of the finite map. -/
theorem TreeMap.step_follows (h : self.Represents map) (command : TreeMapCommand K V R σ)
    (hmeets : self.Meets command) (hothers : ∀ other, command = .insertTree other →
      ∃ otherMap, other.Represents otherMap) :
    ∃ answer next map', self.step sort command = some (answer, next) ∧
      MapStep map command answer map' ∧ next.Represents map' := by
  cases command with
  | insert key value =>
    obtain ⟨next, hrun, hnext⟩ := insertOrReplace_represents h key value
    refine ⟨.done, next, _, ?_, .insert map key value, hnext⟩
    rw [step, insert_eq, hrun]
    rfl
  | insertOrReplace key value =>
    obtain ⟨next, hrun, hnext⟩ := insertOrReplace_represents h key value
    exact ⟨_, next, _, by rw [step, hrun]; rfl, .insertOrReplace map key value, hnext⟩
  | extend pairs =>
    obtain ⟨next, hrun, hnext⟩ := extend_represents sort h hmeets
    exact ⟨_, next, _, by rw [step, hrun]; rfl, .extend map pairs, hnext⟩
  | insertTree other =>
    obtain ⟨otherMap, hother⟩ := hothers other rfl
    obtain ⟨next, hrun, hnext⟩ := insertTree_represents sort h hother
    exact ⟨_, next, _, by rw [step, hrun]; rfl, .insertTree map hother, hnext⟩
  | remove key =>
    obtain ⟨next, hrun, hnext⟩ := remove_represents h key
    exact ⟨_, next, _, by rw [step, hrun]; rfl, .remove map key, hnext⟩
  | removeRange start stop =>
    obtain ⟨next, hrun, hnext⟩ := removeRange_represents h hmeets
    refine ⟨_, next, _, by rw [step, hrun]; rfl, .removeRange map start stop, ?_⟩
    convert hnext using 2 with key
    cases start.atMost key <;> cases stop.atMost key <;> cases map key <;> rfl
  | update key f =>
    obtain ⟨next, hrun, hnext⟩ := update_represents h key f
    exact ⟨_, next, _, by rw [step, hrun]; rfl, .update map key f, hnext⟩
  | retain predicate state =>
    obtain ⟨next, map', hrun, hkept, hnext⟩ := retain_represents h predicate state
    exact ⟨_, next, map', by rw [step, hrun]; rfl,
      .retain map map' predicate state h.entries hkept, hnext⟩

theorem TreeMap.Built.represents (h : self.Built sort R σ) : ∃ map, self.Represents map := by
  induction h with
  | empty => exact ⟨_, represents_empty⟩
  | step built meets others run ih ihOthers =>
    obtain ⟨map, hself⟩ := ih
    obtain ⟨answer, next, map', hrun, _, hnext⟩ := step_follows sort hself _ meets ihOthers
    rw [hrun] at run
    cases run
    exact ⟨map', hnext⟩

end Steps

/-- What a map answers, told by the finite map: its pairs by increasing keys, the value of a key,
the closest pair, and the pairs from a key on. -/
structure TreeMap.Agrees (treeMap : TreeMap K V) (map : K → Option V) : Prop where
  iter : ∃ pairs, treeMap.iter = some pairs ∧ OpenGpui.Represents Prod.fst Prod.snd pairs map
  get : ∀ key, treeMap.get key = map key
  closest : ∀ key, ∃ answer, treeMap.closest key = some answer ∧ IsClosest map key answer
  iterFrom : ∀ key, ∃ pairs, treeMap.iterFrom key = some pairs ∧
    OpenGpui.Represents Prod.fst Prod.snd pairs fun other => if key ≤ other then map other else none

theorem TreeMap.Represents.agrees {self : TreeMap K V} {map : K → Option V}
    (h : self.Represents map) : self.Agrees map where
  iter := ⟨_, iter_eq h, h.pairs⟩
  get := get_eq h
  closest := closest_spec h
  iterFrom key := by
    refine ⟨_, iterFrom_spec h key, ?_⟩
    have hfilter := h.entries.filter (p := fun entry => !decide (entry.key < key))
      (q := fun other _ => !decide (other < key)) fun _ _ => rfl
    have hpairs : OpenGpui.Represents Prod.fst Prod.snd
        ((self.tree.toList.filter fun entry => !decide (entry.key < key)).map pair) _ :=
      hfilter.view pair (fun _ => rfl) fun _ => rfl
    convert hpairs using 2 with other
    cases map other with
    | none => rw [ite_self, filter_none]
    | some value =>
      rw [filter_some]
      by_cases hle : key ≤ other
      · rw [if_pos hle, if_pos (by simp [hle])]
      · rw [if_neg hle, if_neg (by simp [not_le.mp hle])]

/-- A run from the empty map in which no batch repeats a key, and no key of the map lies behind
the end of a removed range and in front of its start: it is a run of the finite map with the same
answers, which the map agrees with at its end. -/
theorem tree_map_run_follows_finite_map (sort : SliceSort (Edit (MapEntry K V) (MapKey K)))
    (commands : List (TreeMapCommand K V R σ)) (hmeets : (machine sort R σ).Along
      (fun self command => self.Meets command ∧
        ∀ other, command = .insertTree other → other.Built sort R σ) .empty commands) :
    ∃ answers last map, (machine sort R σ).trace .empty commands = some (answers, last) ∧
        Machine.Follows MapStep (fun _ => none) commands answers map ∧ last.Agrees map := by
  obtain ⟨answers, last, map, hrun, hfollows, hlast⟩ :=
    @Machine.trace_follows _ _ _ (machine sort R σ) (K → Option V) MapStep
      TreeMap.Represents _
      (fun self map command hself hcondition => step_follows sort hself command
        hcondition.1 fun other hother => (hcondition.2 other hother).represents sort)
      .empty _ commands represents_empty hmeets
  exact ⟨answers, last, map, hrun, hfollows, hlast.agrees⟩

theorem TreeMap.not_agrees {treeMap : TreeMap K V} {pairs : List (K × V)}
    (hiter : treeMap.iter = some pairs) (hpairs : ¬Increasing Prod.fst pairs) :
    ¬∃ map, treeMap.Agrees map := by
  rintro ⟨map, hmap⟩
  obtain ⟨pairs', hiter', hrepresents⟩ := hmap.iter
  rw [hiter] at hiter'
  cases hiter'
  exact hpairs hrepresents.increasing

/-- A batch that repeats a key leaves two entries of the key, and so does the removal of a range
that ends before it starts. -/
theorem keys_repeated_by_batch_and_range :
    (∃ answers last, (machine (insertion _) Unit Unit).trace .empty
        [.extend [(1, 10), (1, 20)]] = some (answers, last) ∧
      last.iter = some [(1, 10), (1, 20)] ∧ ¬∃ map : Nat → Option Nat, last.Agrees map) ∧
    ∃ answers last, (machine (insertion _) Unit Unit).trace .empty
        [.extend [(1, 10), (2, 20), (3, 30)], .removeRange (.ofKey 3) (.ofKey 2)] =
          some (answers, last) ∧
      last.iter = some [(1, 10), (2, 20), (2, 20), (3, 30)] ∧
      ¬∃ map : Nat → Option Nat, last.Agrees map := by
  have hbatch : ((machine (insertion _) Unit Unit).trace .empty
      [.extend [(1, 10), (1, 20)]]).bind (fun run => iter run.2) =
        some [((1 : Nat), (10 : Nat)), (1, 20)] := by decide
  have hrange : ((machine (insertion _) Unit Unit).trace .empty [.extend [(1, 10),
      (2, 20), (3, 30)], .removeRange (.ofKey 3) (.ofKey 2)]).bind (fun run => iter run.2) =
          some [((1 : Nat), (10 : Nat)), (2, 20), (2, 20), (3, 30)] := by decide +kernel
  obtain ⟨⟨answers, last⟩, hrun, hiter⟩ := bind_eq_some_iff.mp hbatch
  obtain ⟨⟨answers', last'⟩, hrun', hiter'⟩ := bind_eq_some_iff.mp hrange
  exact ⟨⟨answers, last, hrun, hiter, not_agrees hiter (by unfold Increasing; decide)⟩,
    ⟨answers', last', hrun', hiter', not_agrees hiter' (by unfold Increasing; decide)⟩⟩

theorem small_run_follows_finite_map :
    ∃ answers last map, (machine (insertion _) Unit Unit).trace .empty
          [.insert 2 20, .extend [(3, 30), (1, 10)], .removeRange (.ofKey 2) (.ofKey 3),
            .insertTree .empty, .remove 1] = some (answers, last) ∧
        Machine.Follows MapStep (fun _ => none)
          [.insert 2 20, .extend [(3, 30), (1, 10)], .removeRange (.ofKey 2) (.ofKey 3),
            .insertTree .empty, .remove 1] answers map ∧
        TreeMap.Agrees (K := Nat) (V := Nat) last map := by
  have hbatch : ([((3 : Nat), (30 : Nat)), (1, 10)].map Prod.fst).Nodup := by decide
  refine tree_map_run_follows_finite_map (insertion _) [.insert 2 20, .extend [(3, 30),
    (1, 10)], .removeRange (.ofKey 2) (.ofKey 3), .insertTree .empty, .remove 1] ?_
  refine ⟨⟨trivial, fun _ hother => nomatch hother⟩, fun _ _ _ => ?_⟩
  refine ⟨⟨hbatch, fun _ hother => nomatch hother⟩, fun _ next _ => ?_⟩
  refine ⟨⟨next.meets_removeRange (by decide), fun _ hother => nomatch hother⟩, fun _ _ _ => ?_⟩
  refine ⟨⟨trivial, ?_⟩, fun _ _ _ => ?_⟩
  · rintro _ ⟨⟩
    exact .empty
  · exact ⟨⟨trivial, fun _ hother => nomatch hother⟩, fun _ _ _ => trivial⟩

end OpenGpui.SumTrees
