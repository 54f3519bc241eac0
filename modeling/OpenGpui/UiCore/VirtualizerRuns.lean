/-
Runs of a cache session.  Every answer is transparent while callers honour their
revisions and every state is seeded once; a state seeded twice keeps measurements
that its authority does not stand for.
-/
import OpenGpui.UiCore.VirtualizerTransparency

namespace OpenGpui.UiCore

open Machine Option VirtualizerGeometryCache VirtualizerRequest VirtualizerState List
open VirtualizerStateStep
  VirtualizerStateStep

section Seeding

variable {snapshots : List VirtualizerSnapshot} {first last : VirtualizerState}

/-- Steps that seed nothing leave the authority and add the caller's measurements. -/
theorem foldlM_of_unseeded {steps : List VirtualizerStateStep}
    (hunseeded : ∀ handle, snapshot handle ∉ steps)
    (h : steps.foldlM (buildStep snapshots) first = some last) :
    last.measurementAuthority = first.measurementAuthority ∧
      last.measurementsByKey = (steps.filterMap ownedMeasurement).foldl
        (fun byKey item => byKey.insert item.key (measuredPx item.size))
          first.measurementsByKey := by
  induction steps generalizing first with
  | nil =>
    obtain rfl := some_inj.mp h
    exact ⟨rfl, rfl⟩
  | cons step steps ih =>
    obtain ⟨middle, hmiddle, hrest⟩ := bind_eq_some_iff.mp h
    obtain ⟨hauthority, hmeasurements⟩ := ih
      (fun handle hmem => hunseeded handle (mem_cons_of_mem _ hmem)) hrest
    cases step with
    | snapshot handle => exact absurd mem_cons_self (hunseeded handle)
    | measurement key size | _ =>
      obtain rfl := some_inj.mp hmiddle
      exact ⟨hauthority, hmeasurements⟩

/-- The caller's own measurements around a single seed. -/
def ownedAround (before after : List VirtualizerStateStep) : OwnedMeasurements where
  before := measurementsOf (before.filterMap ownedMeasurement)
  after := measurementsOf (after.filterMap ownedMeasurement)

theorem seededOnce_of_steps {request : VirtualizerRequest}
    {before seed after : List VirtualizerStateStep} {state : VirtualizerState}
    (hsteps : request.steps = before ++ seed ++ after)
    (hseed : seed = [] ∨ ∃ handle, seed = [.snapshot handle])
    (hbefore : ∀ handle, snapshot handle ∉ before)
    (hafter : ∀ handle, snapshot handle ∉ after)
    (h : request.build snapshots = some state) :
    state.SeededOnce (ownedAround before after) := by
  rw [VirtualizerRequest.build, hsteps, foldlM_append, foldlM_append] at h
  obtain ⟨seeded, hseeded, hlast⟩ := bind_eq_some_iff.mp h
  obtain ⟨unseeded, hfirst, hmiddle⟩ := bind_eq_some_iff.mp hseeded
  obtain ⟨hnone, hown⟩ := foldlM_of_unseeded hbefore hfirst
  obtain ⟨hauthority, hmeasurements⟩ := foldlM_of_unseeded hafter hlast
  have hunseeded : ∀ key : VirtualizerItemKey, unseeded.measurementsByKey[key]? =
      (ownedAround before after).before[key]? := by
    intro key
    rw [hown, get_seeded]
    simp [ownedAround, VirtualizerState.new]
  have hmiddleSeeded : ∀ key : VirtualizerItemKey, seeded.measurementsByKey[key]? =
      (authorityMeasurements seeded.measurementAuthority)[key]?.or
        (ownedAround before after).before[key]? := by
    intro key
    rcases hseed with rfl | ⟨handle, rfl⟩
    · obtain rfl := some_inj.mp hmiddle
      rw [hunseeded, hnone]
      simp [authorityMeasurements, VirtualizerState.new]
    · obtain ⟨next, hnext, hdone⟩ := bind_eq_some_iff.mp hmiddle
      obtain rfl := some_inj.mp hdone
      obtain ⟨snapshot, _, rfl⟩ := map_eq_some_iff.mp hnext
      simp only [withSnapshot]
      rw [get_seeded, hunseeded]
      by_cases hempty : snapshot.measurements.items.isEmpty = true
      · rw [isEmpty_iff.mp hempty]
        rfl
      · rw [if_neg hempty]
        rfl
  intro key
  rw [hmeasurements, get_seeded, hmiddleSeeded, hauthority]
  rfl

end Seeding

variable {answers : Nat → RevisionAnswers} {owned : Nat → OwnedMeasurements}

/-- What every run keeps of a cache session. -/
structure VirtualizerCacheSession.Sound (answers : Nat → RevisionAnswers)
    (owned : Nat → OwnedMeasurements) (session : VirtualizerCacheSession) : Prop where
  snapshots : ∀ snapshot ∈ session.snapshots, snapshot.measurements.StoredIn session.memory
  cache : session.cache.Sound answers owned session.memory
  transparent : session.Transparent

/-- What one resolution answers and leaves in the cache. -/
structure ResolutionSound (answers : Nat → RevisionAnswers)
    (owned : Nat → OwnedMeasurements) (memory : List (List VirtualizerSnapshotItem))
    (result : VirtualizerResolvedState × VirtualizerGeometryCache)
    (uncached : VirtualizerResolvedState) : Prop where
  transparent : result.1.withoutAddress = uncached.withoutAddress
  stored : result.1.snapshot.measurements.StoredIn
    (memory ++ [result.1.snapshot.measurements.items])
  cache : result.2.Sound answers owned (memory ++ [result.1.snapshot.measurements.items])

theorem stored_last (memory : List (List VirtualizerSnapshotItem))
    (items : List VirtualizerSnapshotItem) :
    SharedMeasurements.StoredIn (memory ++ [items]) ⟨memory.length, items⟩ := by
  simp [SharedMeasurements.StoredIn]

variable {memory : List (List VirtualizerSnapshotItem)}

theorem retainMeasurements_stored {preferred : Option SharedMeasurements}
    (h : ∀ authority, preferred = some authority → authority.StoredIn memory)
    (items : List VirtualizerSnapshotItem) :
    (retainMeasurements memory.length preferred items).StoredIn (memory ++ [items]) := by
  unfold retainMeasurements
  split
  next authority =>
    by_cases hsame : authority.items = items
    · rw [if_pos hsame]
      exact (h authority rfl).append items
    · rw [if_neg hsame]
      exact stored_last memory items
  next => exact stored_last memory items

variable {cache : VirtualizerGeometryCache}

theorem knownSize_resolution (hcache : cache.Sound answers owned memory)
    (state : VirtualizerState) (revision : Nat) {sizeForIndex : Nat → UiPx}
    (hsizes : ∀ index < state.count, sizeForIndex index = (answers revision).sizeForIndex index)
    (keyForIndex : Nat → VirtualizerItemKey) :
    ResolutionSound answers owned memory
      (state.resolveKnownSizeWindowByCached memory.length cache revision sizeForIndex keyForIndex)
      (state.resolveKnownSizeWindowBy memory.length sizeForIndex keyForIndex) := by
  have hbuild := sizeDrivenGeometry_congr (nonnegativePx state.gap)
    (nonnegativePx state.scrollMargin) hsizes
  have hlast := stored_last memory []
  simp only [resolveKnownSizeWindowByCached, resolveKnownSize]
  cases hhit : cache.knownSizeHit (state.geometryCacheKey .knownSize revision) with
  | some geometry =>
    have hgeometry : geometry = sizeDrivenGeometry state.count (nonnegativePx state.gap)
        (nonnegativePx state.scrollMargin) (answers revision).sizeForIndex :=
      knownSizeHit_sound hcache hhit
    rw [hgeometry, ← hbuild]
    exact ⟨rfl, hlast, hcache.append _⟩
  | none =>
    refine ⟨rfl, hlast, ?_⟩
    intro entry hentry
    obtain rfl := some_inj.mp hentry
    refine ⟨hbuild, ?_, ?_⟩
    · intro authority hauthority
      cases hauthority
    · intro measured hmeasured
      cases hmeasured

variable {state : VirtualizerState}

theorem measured_resolution (hcache : cache.Sound answers owned memory) (hauthority : ∀ authority,
      state.measurementAuthority = some authority → authority.StoredIn memory)
    (revision : Nat) {itemForIndex : Nat → VirtualizerItemKey × Option UiPx}
    (hitems : ∀ index < state.count, itemForIndex index =
      answeredItem answers owned revision state.measurementAuthority index) :
    ResolutionSound answers owned memory
      (state.resolveMeasuredWindowByCached memory.length cache revision itemForIndex)
      (state.resolveMeasuredWindowFromGeometry
        (state.measuredGeometry memory.length itemForIndex)) := by
  have hbuild : (state.measuredGeometry memory.length itemForIndex).withoutAddress =
      (state.geometryCacheKey .measured revision).answered answers owned := by
    rw [measuredGeometry, withoutAddress_buildMeasuredGeometry,
      buildMeasuredGeometry_congr 0 _ _ _ none hitems]
    rfl
  simp only [resolveMeasuredWindowByCached, resolveMeasured]
  cases hhit : cache.measuredHit (state.geometryCacheKey .measured revision) with
  | some measured =>
    obtain ⟨hmeasured, hstored⟩ := measuredHit_sound hcache hauthority hhit
    exact ⟨withoutAddress_resolveMeasured state (hmeasured.trans hbuild.symm),
      hstored.append _, hcache.append _⟩
  | none =>
    have hstored := retainMeasurements_stored hauthority
      (snapshotItems (snapshotByKey state.count itemForIndex))
    have hkept : (state.measuredGeometry memory.length itemForIndex).snapshotMeasurements.items =
          snapshotItems (snapshotByKey state.count itemForIndex) :=
      retainMeasurements_items _ _ _
    have hproduced : (state.measuredGeometry memory.length
        itemForIndex).snapshotMeasurements.StoredIn (memory ++ [(state.measuredGeometry
          memory.length itemForIndex).snapshotMeasurements.items]) := by
      rw [hkept]
      exact hstored
    refine ⟨rfl, hproduced, ?_⟩
    intro entry hentry
    obtain rfl := some_inj.mp hentry
    refine ⟨hbuild, ?_, ?_⟩
    · intro authority hsome
      exact (hauthority authority hsome).append _
    · intro measured hmeasured
      obtain rfl := VirtualizerGeometryCacheValue.measured.inj hmeasured
      exact hproduced

/-- The items that the answers of a revision stand for under the state's authority. -/
theorem itemOfKey_of_seededOnce {revision : Nat} {keyForIndex : Nat → VirtualizerItemKey}
    (hmeasured : (answers revision).measured = .keys keyForIndex)
    (hseeded : state.SeededOnce (owned revision)) (index : Nat) :
    state.itemOfKey (keyForIndex index) =
      answeredItem answers owned revision state.measurementAuthority index := by
  rw [answeredItem, hmeasured, itemOfKey, measuredSize, hseeded]

/-- A request that honours its revision, over a state seeded once, resolves soundly. -/
theorem request_resolution {session : VirtualizerCacheSession}
    (hsession : session.Sound answers owned) {request : VirtualizerRequest}
    (hhonours : session.Honours answers (.resolve request))
    (hseeds : session.SeedsOnce answers owned (.resolve request))
    (hbuild : request.build session.snapshots = some state) :
    ResolutionSound answers owned session.memory
      (request.resolveCached state session.memory.length session.cache)
      (request.resolveUncached state session.memory.length) := by
  have hcount := build_count hbuild
  have hauthority : ∀ authority, state.measurementAuthority = some authority →
      authority.StoredIn session.memory := by
    intro authority hsome
    obtain ⟨snapshot, hmem, rfl⟩ := build_authority hbuild authority hsome
    exact hsession.snapshots snapshot hmem
  have hanswers := hhonours state hbuild
  unfold VirtualizerRequest.Honours at hanswers
  unfold resolveCached resolveUncached
  cases hcallback : request.callback with
  | knownSize sizeForIndex keyForIndex =>
    simp only [hcallback] at hanswers
    apply knownSize_resolution hsession.cache
    intro index hindex
    exact hanswers index (hcount ▸ hindex)
  | measuredBy itemForIndex =>
    apply measured_resolution hsession.cache hauthority
    intro index hindex
    cases hmeasured : (answers request.revision).measured with
    | items answered =>
      simp only [hcallback, hmeasured] at hanswers
      rw [answeredItem, hmeasured]
      exact hanswers index (hcount ▸ hindex)
    | keys answered =>
      simp only [VirtualizerCacheSession.SeedsOnce, hcallback, hmeasured] at hanswers hseeds
      rw [hanswers index (hcount ▸ hindex)]
      exact itemOfKey_of_seededOnce hmeasured (hseeds state hbuild) index
  | measured keyForIndex =>
    apply measured_resolution hsession.cache hauthority
    intro index hindex
    cases hmeasured : (answers request.revision).measured with
    | items answered =>
      simp only [hcallback, hmeasured] at hanswers
      rw [answeredItem, hmeasured]
      exact hanswers index (hcount ▸ hindex)
    | keys answered =>
      simp only [VirtualizerCacheSession.SeedsOnce, hcallback, hmeasured] at hanswers hseeds
      have hitem := itemOfKey_of_seededOnce hmeasured (hseeds state hbuild) index
      rw [← hanswers index (hcount ▸ hindex)] at hitem
      exact hitem

namespace VirtualizerCacheSession

theorem start_sound : start.Sound answers owned where
  snapshots _ hmem := by cases hmem
  cache _ hentry := by cases hentry
  transparent _ hmem := by cases hmem

theorem perform_sound {session next : VirtualizerCacheSession}
    {operation : VirtualizerCacheOperation} (hsession : session.Sound answers owned)
    (hhonours : session.Honours answers operation)
    (hseeds : session.SeedsOnce answers owned operation)
    (h : session.perform operation = some next) : next.Sound answers owned := by
  cases operation with
  | newSnapshot scrollOffset measurements =>
    obtain rfl := some_inj.mp h
    refine ⟨?_, hsession.cache.append measurements, hsession.transparent⟩
    intro snapshot hmem
    rcases mem_append.mp hmem with hold | hnew
    · exact (hsession.snapshots snapshot hold).append measurements
    · rw [mem_singleton.mp hnew]
      exact stored_last session.memory measurements
  | clear =>
    obtain rfl := some_inj.mp h
    refine ⟨hsession.snapshots, ?_, hsession.transparent⟩
    intro entry hentry
    cases hentry
  | resolve request =>
    obtain ⟨state, hbuild, rfl⟩ := map_eq_some_iff.mp h
    have hresolved := request_resolution hsession hhonours hseeds hbuild
    refine ⟨?_, hresolved.cache, ?_⟩
    · intro snapshot hmem
      rcases mem_append.mp hmem with hold | hnew
      · exact (hsession.snapshots snapshot hold).append _
      · rw [mem_singleton.mp hnew]
        exact hresolved.stored
    · intro answer hmem
      rcases mem_cons.mp hmem with rfl | hold
      · exact hresolved.transparent
      · exact hsession.transparent answer hold

/-- However often states are seeded again from what earlier resolutions produced, the
cached answers are the uncached ones. -/
theorem cached_runs_are_transparent (answers : Nat → RevisionAnswers)
    (owned : Nat → OwnedMeasurements) {operations : List VirtualizerCacheOperation}
    {session : VirtualizerCacheSession}
    (hhonours : machine.Along (Honours answers) start operations)
    (hseeds : machine.Along (SeedsOnce answers owned) start operations)
    (hrun : machine.run start operations = some session) : session.Transparent := by
  have hpermitted := hhonours.and hseeds
  have hsound : session.Sound answers owned := by
    refine run_induction ?_ start_sound hpermitted hrun
    intro before operation output next hbefore hcondition hstep
    obtain ⟨result, hperform, hresult⟩ := map_eq_some_iff.mp hstep
    obtain ⟨_, rfl⟩ := Prod.mk.inj hresult
    exact perform_sound hbefore hcondition.1 hcondition.2 hperform
  exact hsound.transparent

/-- Whether every answer of the run is transparent, when the run has no undefined step. -/
def runsTransparent (operations : List VirtualizerCacheOperation) : Option Bool :=
  (machine.run start operations).map fun session =>
    session.answers.all fun answer => answer.1.withoutAddress == answer.2.withoutAddress

theorem runsTransparent_eq_some {operations : List VirtualizerCacheOperation}
    {transparent : Bool} (h : runsTransparent operations = some transparent) :
    ∃ session, machine.run start operations = some session ∧
      (session.Transparent ↔ transparent = true) := by
  obtain ⟨session, hrun, hall⟩ := map_eq_some_iff.mp h
  refine ⟨session, hrun, ?_⟩
  rw [← hall, List.all_eq_true]
  simp only [beq_iff_eq]
  rfl

/-- Two keys, of which callers measure one or both. -/
def keyForIndex (index : Nat) : VirtualizerItemKey := if index = 0 then "a" else "b"

def measuredRequest (steps : List VirtualizerStateStep) : VirtualizerCacheOperation :=
  .resolve { revision := 1, count := 2, estimatedSize := 20, steps,
             callback := .measured keyForIndex }

def keyedAnswers (_ : Nat) : RevisionAnswers where
  sizeForIndex _ := 0
  measured := .keys keyForIndex

/-- A resolution, and one seeded with what the first produced. -/
def reseededOperations : List VirtualizerCacheOperation :=
  [.newSnapshot 0 [⟨"a", 30⟩, ⟨"gone", 70⟩], measuredRequest [.snapshot 0],
    measuredRequest [.scrollOffset 5, .snapshot 1]]

theorem measuredRequest_honours (session : VirtualizerCacheSession)
    (steps : List VirtualizerStateStep) :
    session.Honours keyedAnswers (measuredRequest steps) :=
  fun _ _ _ _ => rfl

theorem reseeded_run_is_transparent :
    ∃ session, machine.run start reseededOperations = some session ∧ session.Transparent := by
  have hrun : (machine.run start reseededOperations).isSome = true := by decide
  obtain ⟨session, hsession⟩ := isSome_iff_exists.mp hrun
  have hhonours : ∀ operation ∈ reseededOperations, ∀ session : VirtualizerCacheSession,
      session.Honours keyedAnswers operation := by
    simp only [reseededOperations, forall_mem_cons]
    exact ⟨fun _ => trivial, fun session => measuredRequest_honours session _,
      fun session => measuredRequest_honours session _, forall_mem_nil _⟩
  have hseeds : ∀ operation ∈ reseededOperations, ∀ session : VirtualizerCacheSession,
      session.SeedsOnce keyedAnswers (fun _ => ownedAround [] []) operation := by
    simp only [reseededOperations, forall_mem_cons]
    refine ⟨fun _ => trivial, ?_, ?_, forall_mem_nil _⟩
    · intro session state hbuild
      exact @seededOnce_of_steps session.snapshots _ [] [.snapshot 0] [] state rfl
        (Or.inr ⟨0, rfl⟩) (by simp) (by simp) hbuild
    · intro session state hbuild
      exact @seededOnce_of_steps session.snapshots _ [.scrollOffset 5] [.snapshot 1] [] state
        rfl (Or.inr ⟨1, rfl⟩) (by simp) (by simp) hbuild
  exact ⟨session, hsession, cached_runs_are_transparent keyedAnswers _
    ((along_of_forall_mem hhonours).mono fun session _ h => h session)
    ((along_of_forall_mem hseeds).mono fun session _ h => h session) hsession⟩

/-- Two seeds in one state; the second state has only the later of them. -/
def twiceSeededOperations : List VirtualizerCacheOperation :=
  [.newSnapshot 0 [⟨"a", 30⟩], .newSnapshot 0 [⟨"b", 50⟩],
    measuredRequest [.snapshot 0, .snapshot 1], measuredRequest [.snapshot 1]]

theorem twice_seeded_run_is_not_transparent :
    ∃ session, machine.Along (Honours keyedAnswers) start twiceSeededOperations ∧
      machine.run start twiceSeededOperations = some session ∧ ¬ session.Transparent := by
  have hanswers : runsTransparent twiceSeededOperations = some false := by decide +kernel
  obtain ⟨session, hrun, htransparent⟩ := runsTransparent_eq_some hanswers
  refine ⟨session, ?_, hrun, ?_⟩
  · have hhonours : ∀ operation ∈ twiceSeededOperations, ∀ session : VirtualizerCacheSession,
        session.Honours keyedAnswers operation := by
      simp only [twiceSeededOperations, forall_mem_cons]
      exact ⟨fun _ => trivial, fun _ => trivial, fun session => measuredRequest_honours session _,
        fun session => measuredRequest_honours session _, forall_mem_nil _⟩
    exact (along_of_forall_mem hhonours).mono fun session _ h => h session
  · rw [htransparent]
    decide

end VirtualizerCacheSession

end OpenGpui.UiCore
