import WhatsappEsp32.Lib.Dict
import WhatsappEsp32.Storage.Record

/-!
# App-state synchronisation

The versions and the mutation MACs of the app-state collections, which are kept in memory only.  A
patch removes and adds MACs and moves the version, all under one lock; the same can be done with
separate calls.

* `AppSyncTables` and its operations;
* `AppSyncView`: what can be looked up, as functions, and what the operations do to it;
* `view_run`: runs of operations, seen through the view;
* `commitPatch_eq_updates`: a patch is the separate updates, and touches nothing else.
-/

namespace WhatsappEsp32

/-- One MAC of a patch: `AppStateMutationMAC`. -/
structure AppStateMutationMAC where
  indexMac : Bytes
  valueMac : Bytes
  deriving DecidableEq

/-- The fields `versions` and `mutation_macs` of `StoreInner`, and the others. -/
structure AppSyncTables (HashState Rest : Type) where
  versions : Dict String HashState
  mutationMacs : Dict String (Dict Bytes Bytes)
  rest : Rest

variable {HashState Rest : Type}

namespace AppSyncTables

/-- `get_version`. -/
def getVersion (s : AppSyncTables HashState Rest) (name : String) : Option HashState :=
  s.versions.lookup name

/-- `delete_version`. -/
def deleteVersion (s : AppSyncTables HashState Rest) (name : String) :
    AppSyncTables HashState Rest :=
  { s with versions := s.versions.erase name }

/-- `set_version`. -/
def setVersion (s : AppSyncTables HashState Rest) (name : String) (state : HashState) :
    AppSyncTables HashState Rest :=
  { s with versions := s.versions.insert name state }

/-- `mutation_macs.entry(name).or_default()`. -/
def macsOf (s : AppSyncTables HashState Rest) (name : String) : Dict Bytes Bytes :=
  (s.mutationMacs.lookup name).getD ∅

/-- The loop over the mutations that are added. -/
def insertMacs (map : Dict Bytes Bytes) (mutations : List AppStateMutationMAC) : Dict Bytes Bytes :=
  map.insertAll (mutations.map fun m => (m.indexMac, m.valueMac))

/-- `put_mutation_macs`; the version is not looked at. -/
def putMutationMacs (s : AppSyncTables HashState Rest) (name : String) (_version : UInt64)
    (mutations : List AppStateMutationMAC) : AppSyncTables HashState Rest :=
  { s with mutationMacs := s.mutationMacs.insert name (insertMacs (s.macsOf name) mutations) }

/-- Remove, then add, then move the version. -/
def commitPatch (s : AppSyncTables HashState Rest) (name : String) (state : HashState)
    (removedIndexMacs : List Bytes) (added : List AppStateMutationMAC) :
    AppSyncTables HashState Rest :=
  let map := (s.macsOf name).eraseAll removedIndexMacs
  { s with
    mutationMacs := s.mutationMacs.insert name (insertMacs map added)
    versions := s.versions.insert name state }

/-- `get_mutation_mac`. -/
def getMutationMac (s : AppSyncTables HashState Rest) (name : String) (indexMac : Bytes) :
    Option Bytes :=
  (s.mutationMacs.lookup name).bind fun map => map.lookup indexMac

/-- Unlike the other calls, this one creates no table. -/
def deleteMutationMacs (s : AppSyncTables HashState Rest) (name : String)
    (indexMacs : List Bytes) : AppSyncTables HashState Rest :=
  match s.mutationMacs.lookup name with
  | none => s
  | some map => { s with mutationMacs := s.mutationMacs.insert name (map.eraseAll indexMacs) }

/-- `clear_mutation_macs`. -/
def clearMutationMacs (s : AppSyncTables HashState Rest) (name : String) :
    AppSyncTables HashState Rest :=
  { s with mutationMacs := s.mutationMacs.erase name }

end AppSyncTables

/-! ### Operations -/

/-- The operations that change the tables. -/
inductive AppSyncOp (HashState : Type)
  | commitPatch (name : String) (state : HashState) (removedIndexMacs : List Bytes)
      (added : List AppStateMutationMAC)
  | deleteMutationMacs (name : String) (indexMacs : List Bytes)
  | putMutationMacs (name : String) (version : UInt64) (mutations : List AppStateMutationMAC)
  | setVersion (name : String) (state : HashState)
  | clearMutationMacs (name : String)
  | deleteVersion (name : String)

namespace AppSyncOp

/-- The tables after one call. -/
def run (s : AppSyncTables HashState Rest) : AppSyncOp HashState → AppSyncTables HashState Rest
  | commitPatch name state removed added => s.commitPatch name state removed added
  | deleteMutationMacs name indexMacs => s.deleteMutationMacs name indexMacs
  | putMutationMacs name version mutations => s.putMutationMacs name version mutations
  | setVersion name state => s.setVersion name state
  | clearMutationMacs name => s.clearMutationMacs name
  | deleteVersion name => s.deleteVersion name

/-- The separate calls for a patch, in the order in which it makes its changes. -/
def separate (version : UInt64) : AppSyncOp HashState → List (AppSyncOp HashState)
  | commitPatch name state removed added =>
    [.deleteMutationMacs name removed, .putMutationMacs name version added, .setVersion name state]
  | op => [op]

end AppSyncOp

/-! ### What can be looked up -/

/-- The tables as functions. -/
@[ext]
structure AppSyncView (HashState : Type) where
  macs : String → Bytes → Option Bytes
  versions : String → Option HashState

/-- The value of the last of the mutations with an index. -/
def lastAdded (mutations : List AppStateMutationMAC) (indexMac : Bytes) : Option Bytes :=
  (mutations.filter fun m => m.indexMac = indexMac).getLast?.map (·.valueMac)

namespace AppSyncView

/-- Replace the MACs of one collection. -/
def setMacs (v : AppSyncView HashState) (name : String) (macs : Bytes → Option Bytes) :
    AppSyncView HashState :=
  { v with macs := Function.update v.macs name macs }

/-- The MACs at `indexMacs` are gone. -/
def removeMacs (v : AppSyncView HashState) (name : String) (indexMacs : List Bytes) :
    AppSyncView HashState :=
  v.setMacs name fun i => if i ∈ indexMacs then none else v.macs name i

/-- The MACs of `mutations` are there, the last one for an index winning. -/
def addMacs (v : AppSyncView HashState) (name : String) (mutations : List AppStateMutationMAC) :
    AppSyncView HashState :=
  v.setMacs name fun i => (lastAdded mutations i).or (v.macs name i)

/-- The hash state of `name` is `state`. -/
def setVersion (v : AppSyncView HashState) (name : String) (state : Option HashState) :
    AppSyncView HashState :=
  { v with versions := Function.update v.versions name state }

/-- `name` has no MACs. -/
def clearMacs (v : AppSyncView HashState) (name : String) : AppSyncView HashState :=
  v.setMacs name fun _ => none

/-- What a call does to the view. -/
def run (v : AppSyncView HashState) : AppSyncOp HashState → AppSyncView HashState
  | .commitPatch name state removed added =>
    ((v.removeMacs name removed).addMacs name added).setVersion name (some state)
  | .deleteMutationMacs name indexMacs => v.removeMacs name indexMacs
  | .putMutationMacs name _ mutations => v.addMacs name mutations
  | .setVersion name state => v.setVersion name (some state)
  | .clearMutationMacs name => v.clearMacs name
  | .deleteVersion name => v.setVersion name none

theorem macs_setMacs (v : AppSyncView HashState) (name : String) (macs : Bytes → Option Bytes) :
    (v.setMacs name macs).macs name = macs := Function.update_self ..

theorem setMacs_setMacs (v : AppSyncView HashState) (name : String)
    (macs macs' : Bytes → Option Bytes) :
    (v.setMacs name macs).setMacs name macs' = v.setMacs name macs' := by
  rw [setMacs, setMacs, setMacs, Function.update_idem]

end AppSyncView

namespace AppSyncTables

/-- What the two getters answer. -/
def view (s : AppSyncTables HashState Rest) : AppSyncView HashState :=
  ⟨s.getMutationMac, s.getVersion⟩

variable (s : AppSyncTables HashState Rest) (name : String)

/-- A collection without a table and one with an empty table look the same. -/
theorem lookup_macsOf (i : Bytes) : (s.macsOf name).lookup i = s.view.macs name i := by
  simp only [view, macsOf, getMutationMac]
  cases s.mutationMacs.lookup name with
  | none => exact AList.lookup_empty i
  | some map => rfl

/-- Replace the table of one collection. -/
def setTable (map : Dict Bytes Bytes) : AppSyncTables HashState Rest :=
  { s with mutationMacs := s.mutationMacs.insert name map }

theorem view_setTable (map : Dict Bytes Bytes) :
    (s.setTable name map).view = s.view.setMacs name fun i => map.lookup i := by
  ext1
  · funext name' i
    simp only [view, setTable, getMutationMac, AList.lookup_insert_eq, AppSyncView.setMacs,
      Function.update_apply]
    split_ifs <;> rfl
  · rfl

theorem view_setVersion (state : HashState) :
    (s.setVersion name state).view = s.view.setVersion name (some state) := by
  ext1
  · rfl
  · funext name'
    simp only [view, getVersion, setVersion, AppSyncView.setVersion, AList.lookup_insert_eq,
      Function.update_apply]

theorem view_deleteVersion : (s.deleteVersion name).view = s.view.setVersion name none := by
  ext1
  · rfl
  · funext name'
    simp only [view, getVersion, deleteVersion, AppSyncView.setVersion, AList.lookup_erase_eq,
      Function.update_apply]

theorem lookup_insertMacs (map : Dict Bytes Bytes) (mutations : List AppStateMutationMAC)
    (i : Bytes) : (insertMacs map mutations).lookup i =
      (lastAdded mutations i).or (map.lookup i) := by
  rw [insertMacs, AList.lookup_insertAll, List.filter_map, List.getLast?_map, Option.map_map,
    lastAdded]
  rfl

theorem view_putMutationMacs (version : UInt64) (mutations : List AppStateMutationMAC) :
    (s.putMutationMacs name version mutations).view = s.view.addMacs name mutations := by
  have htable : s.putMutationMacs name version mutations =
      s.setTable name (insertMacs (s.macsOf name) mutations) := rfl
  rw [htable, view_setTable, AppSyncView.addMacs]
  congr 1
  funext i
  rw [lookup_insertMacs, lookup_macsOf]

theorem view_deleteMutationMacs (indexMacs : List Bytes) :
    (s.deleteMutationMacs name indexMacs).view = s.view.removeMacs name indexMacs := by
  unfold deleteMutationMacs
  cases h : s.mutationMacs.lookup name with
  | none =>
    -- there is no table, so nothing can be removed
    have hnone : s.view.macs name = fun _ => none := by
      funext i
      simp [view, getMutationMac, h]
    simp only [AppSyncView.removeMacs, AppSyncView.setMacs, hnone, ite_self]
    rw [← hnone, Function.update_eq_self]
  | some map =>
    have hmap : s.macsOf name = map := by rw [macsOf, h, Option.getD_some]
    refine (s.view_setTable name (map.eraseAll indexMacs)).trans ?_
    rw [AppSyncView.removeMacs]
    congr 1
    funext i
    rw [AList.lookup_eraseAll, ← hmap, lookup_macsOf]
    split_ifs <;> rfl

theorem view_clearMutationMacs : (s.clearMutationMacs name).view = s.view.clearMacs name := by
  ext1
  · funext name' i
    simp only [view, getMutationMac, clearMutationMacs, AppSyncView.clearMacs, AppSyncView.setMacs,
      AList.lookup_erase_eq, Function.update_apply]
    split_ifs <;> rfl
  · rfl

theorem view_commitPatch (state : HashState) (removed : List Bytes)
    (added : List AppStateMutationMAC) :
    (s.commitPatch name state removed added).view =
      ((s.view.removeMacs name removed).addMacs name added).setVersion name (some state) := by
  have htable : s.commitPatch name state removed added =
      (s.setTable name (insertMacs ((s.macsOf name).eraseAll removed) added)).setVersion name
        state := rfl
  rw [htable, view_setVersion, view_setTable, AppSyncView.addMacs, AppSyncView.removeMacs,
    AppSyncView.setMacs_setMacs, AppSyncView.macs_setMacs]
  congr 2
  funext i
  rw [lookup_insertMacs, AList.lookup_eraseAll, lookup_macsOf]
  split_ifs <;> rfl

/-- The operations do to the lookups what the view says. -/
theorem view_run_op (op : AppSyncOp HashState) : (op.run s).view = s.view.run op := by
  cases op with
  | commitPatch name state removed added => exact view_commitPatch s name state removed added
  | deleteMutationMacs name indexMacs => exact view_deleteMutationMacs s name indexMacs
  | putMutationMacs name version mutations => exact view_putMutationMacs s name version mutations
  | setVersion name state => exact view_setVersion s name state
  | clearMutationMacs name => exact view_clearMutationMacs s name
  | deleteVersion name => exact view_deleteVersion s name

theorem view_run (ops : List (AppSyncOp HashState)) :
    (ops.foldl AppSyncOp.run s).view = ops.foldl AppSyncView.run s.view := by
  induction ops generalizing s with
  | nil => rfl
  | cons op ops ih => rw [List.foldl_cons, ih, view_run_op, List.foldl_cons]

theorem rest_run_op (op : AppSyncOp HashState) : (op.run s).rest = s.rest := by
  cases op with
  | deleteMutationMacs name indexMacs =>
    simp only [AppSyncOp.run, deleteMutationMacs]
    split <;> rfl
  | _ => rfl

theorem rest_run (ops : List (AppSyncOp HashState)) :
    (ops.foldl AppSyncOp.run s).rest = s.rest := by
  induction ops generalizing s with
  | nil => rfl
  | cons op ops ih => rw [List.foldl_cons, ih, rest_run_op]

end AppSyncTables

/-- On the view a patch is the separate calls. -/
theorem AppSyncView.run_separate (v : AppSyncView HashState) (version : UInt64)
    (op : AppSyncOp HashState) : (op.separate version).foldl AppSyncView.run v = v.run op := by
  cases op <;> rfl

theorem AppSyncView.run_flatMap_separate (v : AppSyncView HashState) (version : UInt64)
    (ops : List (AppSyncOp HashState)) :
    (ops.flatMap (AppSyncOp.separate version)).foldl AppSyncView.run v =
      ops.foldl AppSyncView.run v := by
  induction ops generalizing v with
  | nil => rfl
  | cons op ops ih => rw [List.flatMap_cons, List.foldl_append, run_separate, ih, List.foldl_cons]

/-- A patch sets the MACs that it adds, removes those that it only removes, moves the version and
leaves everything else alone; in any run, what can be looked up is the same when every patch is
replaced by the separate calls. -/
theorem commitPatch_eq_updates (s : AppSyncTables HashState Rest) (name : String)
    (state : HashState) (removed : List Bytes) (added : List AppStateMutationMAC) :
    let s' := s.commitPatch name state removed added
    (∀ i, s'.getMutationMac name i =
      (lastAdded added i).or (if i ∈ removed then none else s.getMutationMac name i)) ∧
    s'.getVersion name = some state ∧
    (∀ name', name' ≠ name → s'.getVersion name' = s.getVersion name' ∧
      ∀ i, s'.getMutationMac name' i = s.getMutationMac name' i) ∧
    s'.rest = s.rest ∧
    ∀ (version : UInt64) (ops : List (AppSyncOp HashState)) (n : String),
      let run := ops.foldl AppSyncOp.run s
      let run' := (ops.flatMap (AppSyncOp.separate version)).foldl AppSyncOp.run s
      run.rest = run'.rest ∧ run.getVersion n = run'.getVersion n ∧
        ∀ i, run.getMutationMac n i = run'.getMutationMac n i := by
  intro s'
  -- everything below is read off the view
  have hview : s'.view = _ := s.view_commitPatch name state removed added
  have hmacs : ∀ n i, s'.getMutationMac n i = s'.view.macs n i := fun _ _ => rfl
  have hversions : ∀ n, s'.getVersion n = s'.view.versions n := fun _ => rfl
  refine ⟨?_, ?_, ?_, rfl, ?_⟩
  · intro i
    rw [hmacs, hview]
    simp only [AppSyncView.setVersion, AppSyncView.addMacs, AppSyncView.removeMacs,
      AppSyncView.macs_setMacs]
    rfl
  · rw [hversions, hview]
    exact Function.update_self ..
  · intro name' hne
    constructor
    · rw [hversions, hview]
      exact Function.update_of_ne hne ..
    · intro i
      rw [hmacs, hview]
      simp only [AppSyncView.setVersion, AppSyncView.addMacs, AppSyncView.removeMacs,
        AppSyncView.setMacs, Function.update_of_ne hne]
      rfl
  · intro version ops n run run'
    have hsame : run.view = run'.view := by
      rw [AppSyncTables.view_run, AppSyncTables.view_run, AppSyncView.run_flatMap_separate]
    exact ⟨(s.rest_run _).trans (s.rest_run _).symm, congrFun (congrArg AppSyncView.versions hsame) n,
      congrFun (congrFun (congrArg AppSyncView.macs hsame) n)⟩

/-- A replacement: the index is removed and added again in one patch. -/
example : let s : AppSyncTables ℕ Unit := ⟨∅, ∅, ()⟩
    let s' := s.commitPatch "regular" 1 [] [⟨[0], [7]⟩, ⟨[1], [8]⟩]
    (s'.commitPatch "regular" 2 [[0], [1]] [⟨[0], [9]⟩]).getMutationMac "regular" [0] = some [9] := by
  decide

end WhatsappEsp32
