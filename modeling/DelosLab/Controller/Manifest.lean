import DelosLab.Common.Membership
import Mathlib.Data.List.Dedup

/-!
# The manifest of a lab

The nodes that a supervisor runs. An identity stays in the manifest when it is retired, so it
is never given out again; only a reset of the lab replaces the nodes as a whole.
-/

namespace DelosLab.Controller

inductive Group : Type where
  | metastore
  | database
deriving DecidableEq

/-- The path of a node's database only goes into its command line. -/
structure NodeManifest where
  nodeId : String
  group : Group
  endpoint : String
  joinExistingDatabase : Bool
  processRemoved : Bool
  retired : Bool
deriving DecidableEq

/-- `node.model_copy(update={"join_existing_database": False})`. -/
def NodeManifest.joined (node : NodeManifest) : NodeManifest :=
  { node with joinExistingDatabase := false }

/-- The copy that `retire_database_node` makes. -/
def NodeManifest.removed (node : NodeManifest) : NodeManifest :=
  { node with joinExistingDatabase := false, processRemoved := true, retired := true }

/-- What the methods of the supervisor and of the manifest raise. -/
inductive Error : Type where
  | valueError (message : String)
  | keyError (nodeId : String)
  | runtimeError (message : String)
  | timeoutError
  | httpError
  | osError
deriving DecidableEq

/-- A dictionary of nodes by their identifiers, in the order of insertion. -/
structure LabManifest where
  nodes : List NodeManifest
deriving DecidableEq

namespace LabManifest

/-- `self.nodes.get(node_id)`. -/
def node? (self : LabManifest) (nodeId : String) : Option NodeManifest :=
  self.nodes.find? fun node => node.nodeId = nodeId

def nodeIds (self : LabManifest) : List String := self.nodes.map NodeManifest.nodeId

def metastoreNodes (self : LabManifest) : List NodeManifest :=
  self.nodes.filter fun node => node.group = .metastore

def databaseNodes (self : LabManifest) : List NodeManifest :=
  self.nodes.filter fun node => node.group = .database

def activeDatabaseNodes (self : LabManifest) : List NodeManifest :=
  self.databaseNodes.filter fun node => !node.retired

def pendingDatabaseNode (self : LabManifest) : Option NodeManifest :=
  self.activeDatabaseNodes.find? NodeManifest.joinExistingDatabase

def validateFixedMembers (label : String) (members : List String) : Except Error Unit :=
  match quorumSize members.length with
  | none => .error (.valueError "membership size must be at least three")
  | some _ =>
      if ¬members.Nodup ∨ "" ∈ members then
        .error (.valueError (label ++ " members must be unique non-empty identifiers"))
      else .ok ()

/-- `validate_nodes`; pydantic reports its errors under a heading of its own. -/
def checkNodes (self : LabManifest) : Except Error Unit :=
  if self.nodes.any fun node => node.retired && node.group ≠ .database then
    .error (.valueError "only database identities can be retired")
  else if self.nodes.any fun node => node.retired && !node.processRemoved then
    .error (.valueError "retired database identities must have removed processes")
  else do
    validateFixedMembers "MetaStore" (self.metastoreNodes.map NodeManifest.nodeId)
    validateFixedMembers "database" (self.databaseNodes.map NodeManifest.nodeId)
    if ¬(self.nodes.map NodeManifest.endpoint).Nodup then
      .error (.valueError "node endpoints must be unique")

/-- Every new manifest is validated. -/
def validated (self : LabManifest) : Except Error LabManifest :=
  match self.checkNodes with
  | .error e => .error e
  | .ok () => .ok self

/-- `{**self.nodes, node_id: node}`, where the dictionary has a node of this identifier. -/
def replaceNode (self : LabManifest) (node : NodeManifest) : LabManifest :=
  ⟨self.nodes.map fun other => if other.nodeId = node.nodeId then node else other⟩

/-- `new_database_process_id`: the first of the drawn names that is new. -/
def newDatabaseProcessId (existing draws : List String) : Option String :=
  draws.find? fun candidate => candidate ∉ existing

/-- `new_database_process_ids`. -/
def newDatabaseProcessIds (existing : List String) : List (List String) → Option (List String)
  | [] => some []
  | draws :: rest => do
      let nodeId ← newDatabaseProcessId existing draws
      let nodeIds ← newDatabaseProcessIds (nodeId :: existing) rest
      some (nodeId :: nodeIds)

/-- A copy of a node takes its place, in a manifest that is validated. -/
def install (self : LabManifest) (node : NodeManifest) :
    Except Error (LabManifest × NodeManifest) :=
  (validated (self.replaceNode node)).map fun candidate => (candidate, node)

/-- The node of a freshly allocated identifier. -/
def joiningNode (nodeId endpoint : String) : NodeManifest :=
  ⟨nodeId, .database, endpoint, true, false, false⟩

/-- `add_database_node`, for a new identifier. -/
def addDatabaseNode (self : LabManifest) (nodeId endpoint : String) :
    Except Error (LabManifest × NodeManifest) :=
  if self.pendingDatabaseNode.isSome then
    .error (.runtimeError "a database node join is already pending")
  else
    (validated ⟨self.nodes ++ [joiningNode nodeId endpoint]⟩).map fun candidate =>
      (candidate, joiningNode nodeId endpoint)

def markDatabaseNodeJoined (self : LabManifest) (nodeId : String) :
    Except Error (LabManifest × NodeManifest) :=
  match self.node? nodeId with
  | none => .error (.keyError nodeId)
  | some node =>
      if node.group ≠ .database then .error (.valueError ("not a database node: " ++ nodeId))
      else self.install node.joined

def retireDatabaseNode (self : LabManifest) (nodeId : String) :
    Except Error (LabManifest × NodeManifest) :=
  match self.node? nodeId with
  | none => .error (.keyError nodeId)
  | some node =>
      if node.group ≠ .database then .error (.valueError ("not a database node: " ++ nodeId))
      else self.install node.removed

/-- The checks of `create_subprocess`. -/
def checkSubprocess (metaIds : List String) (metaPorts dbPorts : List Int)
    (databaseIds : List String) : Except Error Unit := do
  validateFixedMembers "MetaStore" metaIds
  if databaseIds.length ≠ dbPorts.length ∨ ¬databaseIds.Nodup then
    .error (.valueError "database identifiers must match ports and be unique")
  if databaseIds.any fun nodeId => !nodeId.startsWith "db-" then
    .error (.valueError "database identifiers must start with db-")
  validateFixedMembers "database" databaseIds
  if ¬(metaPorts ++ dbPorts).Nodup ∨ (metaPorts ++ dbPorts).any (· ≤ 0) then
    .error (.valueError "subprocess ports must be unique positive integers")

/-- `create_subprocess`, for a given choice of `database_ids`. -/
def createSubprocess (metaPorts dbPorts : List Int) (databaseIds : List String) :
    Except Error LabManifest :=
  let metaIds := (List.range' 1 metaPorts.length).map fun index => "meta-" ++ toString index
  match checkSubprocess metaIds metaPorts dbPorts databaseIds with
  | .error e => .error e
  | .ok () =>
      validated ⟨((metaIds ++ databaseIds).zip (metaPorts ++ dbPorts)).map fun (nodeId, port) =>
        { nodeId := nodeId
          group := if nodeId.startsWith "meta-" then .metastore else .database
          endpoint := "http://127.0.0.1:" ++ toString port
          joinExistingDatabase := false
          processRemoved := false
          retired := false }⟩

/-! ## Which processes a manifest lets run -/

/-- A node of the manifest whose process is not removed. -/
def Active (self : LabManifest) (nodeId : String) : Prop :=
  ∃ node, self.node? nodeId = some node ∧ node.processRemoved = false

variable {self self' : LabManifest} {nodeId : String} {node : NodeManifest}

theorem nodeId_of_node? (h : self.node? nodeId = some node) : node.nodeId = nodeId := by
  have hfound := List.find?_some h
  exact of_decide_eq_true hfound

theorem mem_of_node? (h : self.node? nodeId = some node) : node ∈ self.nodes :=
  List.mem_of_find?_eq_some h

theorem mem_nodeIds_of_node? (h : self.node? nodeId = some node) : nodeId ∈ self.nodeIds :=
  List.mem_map.mpr ⟨node, mem_of_node? h, nodeId_of_node? h⟩

theorem Active.mem (h : self.Active nodeId) : nodeId ∈ self.nodeIds := by
  obtain ⟨node, hnode, -⟩ := h
  exact mem_nodeIds_of_node? hnode

theorem validated_ok (h : self.validated = .ok self') : self' = self := by
  unfold validated at h
  split at h
  · cases h
  · exact (Except.ok.inj h).symm

/-- What the validation lets through, it lets through again. -/
theorem validated_again (h : self.validated = .ok self') : self'.validated = .ok self' := by
  obtain rfl := validated_ok h
  exact h

theorem nodeIds_replaceNode : (self.replaceNode node).nodeIds = self.nodeIds := by
  rw [nodeIds, replaceNode, nodeIds, List.map_map]
  refine List.map_congr_left fun other _ => ?_
  simp only [Function.comp_apply]
  split
  · next h => exact h.symm
  · rfl

/-- A replaced node is found in the place of the old one, and the others are as they were. -/
theorem node?_replaceNode (h : self.node? nodeId = some node) {node' : NodeManifest}
    (hid : node'.nodeId = nodeId) (other : String) :
    (self.replaceNode node').node? other = if other = nodeId then some node'
      else self.node? other := by
  have hkeys : ((fun node : NodeManifest => decide (node.nodeId = other)) ∘
      fun o => if o.nodeId = node'.nodeId then node' else o) =
        fun node => decide (node.nodeId = other) := by
    funext o
    simp only [Function.comp_apply]
    split
    · next heq => rw [heq]
    · rfl
  simp only [node?, replaceNode, List.find?_map, hkeys]
  by_cases hother : other = nodeId
  · subst hother
    have hfound : self.nodes.find? (fun node => decide (node.nodeId = other)) = some node := h
    rw [if_pos rfl, hfound, Option.map_some, if_pos ((nodeId_of_node? h).trans hid.symm)]
  · rw [if_neg hother]
    cases hfound : self.nodes.find? (fun node => decide (node.nodeId = other)) with
    | none => rfl
    | some o =>
        have ho : o.nodeId = other := @nodeId_of_node? self other o hfound
        rw [Option.map_some, if_neg]
        rw [ho, hid]
        exact hother

/-- A new node comes after those that there are. -/
theorem Active.append (h : self.Active nodeId) (node : NodeManifest) :
    LabManifest.Active ⟨self.nodes ++ [node]⟩ nodeId := by
  obtain ⟨old, hold, hactive⟩ := h
  refine ⟨old, ?_, hactive⟩
  rw [node?, List.find?_append]
  rw [node?] at hold
  rw [hold]
  rfl

theorem validated_map_ok {node : NodeManifest} {r : LabManifest × NodeManifest}
    (h : (self.validated.map fun candidate => (candidate, node)) = .ok r) : r.1 = self := by
  cases hv : self.validated with
  | error e =>
      rw [hv] at h
      cases h
  | ok candidate =>
      rw [hv] at h
      cases h
      exact validated_ok hv

theorem validated_map_again {node : NodeManifest} {r : LabManifest × NodeManifest}
    (h : (self.validated.map fun candidate => (candidate, node)) = .ok r) :
    r.1.validated = .ok r.1 := by
  cases hv : self.validated with
  | error e =>
      rw [hv] at h
      cases h
  | ok candidate =>
      rw [hv] at h
      cases h
      exact validated_again hv

/-- A retired identity of a valid manifest has no process. -/
theorem removed_of_retired (h : self.validated = .ok self) (hnode : node ∈ self.nodes)
    (hretired : node.retired = true) : node.processRemoved = true := by
  by_contra hkept
  have hany : (self.nodes.any fun node => node.retired && !node.processRemoved) = true :=
    List.any_eq_true.mpr ⟨node, hnode, by simp [hretired, hkept]⟩
  have hfails : ∃ e, self.checkNodes = .error e := by
    rw [checkNodes, if_pos hany]
    split <;> exact ⟨_, rfl⟩
  obtain ⟨e, he⟩ := hfails
  rw [validated, he] at h
  cases h

/-- A node is added after those that there are. -/
theorem addDatabaseNode_ok {newId endpoint : String} {r : LabManifest × NodeManifest}
    (h : self.addDatabaseNode newId endpoint = .ok r) :
    r.1 = ⟨self.nodes ++ [joiningNode newId endpoint]⟩ ∧ r.1.validated = .ok r.1 := by
  unfold addDatabaseNode at h
  split at h
  · cases h
  · exact ⟨validated_map_ok h, validated_map_again h⟩

/-- A node that has joined keeps its process. -/
theorem markDatabaseNodeJoined_ok {r : LabManifest × NodeManifest}
    (h : self.markDatabaseNodeJoined nodeId = .ok r) :
    r.1.validated = .ok r.1 ∧ r.1.nodeIds = self.nodeIds ∧
      ∀ other, self.Active other → r.1.Active other := by
  unfold markDatabaseNodeJoined at h
  split at h
  · cases h
  next node hnode =>
    split at h
    · cases h
    · refine ⟨validated_map_again h, ?_⟩
      rw [validated_map_ok h]
      refine ⟨nodeIds_replaceNode, fun other hactive => ?_⟩
      obtain ⟨old, hold, hremoved⟩ := hactive
      have hown := nodeId_of_node? hnode
      have hid : node.joined.nodeId = nodeId := hown
      rw [Active, node?_replaceNode hnode hid]
      split
      · next heq =>
          subst heq
          obtain rfl := Option.some.inj (hnode.symm.trans hold)
          exact ⟨_, rfl, hremoved⟩
      · exact ⟨old, hold, hremoved⟩

/-- Retiring a node removes its process and no other. -/
theorem retireDatabaseNode_ok {r : LabManifest × NodeManifest}
    (h : self.retireDatabaseNode nodeId = .ok r) :
    r.1.validated = .ok r.1 ∧ r.1.nodeIds = self.nodeIds ∧
      ∀ other, other ≠ nodeId → self.Active other → r.1.Active other := by
  unfold retireDatabaseNode at h
  split at h
  · cases h
  next node hnode =>
    split at h
    · cases h
    · refine ⟨validated_map_again h, ?_⟩
      rw [validated_map_ok h]
      refine ⟨nodeIds_replaceNode, fun other hne hactive => ?_⟩
      obtain ⟨old, hold, hremoved⟩ := hactive
      have hown := nodeId_of_node? hnode
      have hid : node.removed.nodeId = nodeId := hown
      rw [Active, node?_replaceNode hnode hid, if_neg hne]
      exact ⟨old, hold, hremoved⟩

theorem createSubprocess_ok {metaPorts dbPorts : List Int} {databaseIds : List String}
    (h : createSubprocess metaPorts dbPorts databaseIds = .ok self) :
    self.validated = .ok self := by
  unfold createSubprocess at h
  dsimp only at h
  split at h
  · cases h
  · exact validated_again h

end LabManifest

end DelosLab.Controller
