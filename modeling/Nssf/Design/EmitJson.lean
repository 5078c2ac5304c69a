import Nssf.Design.OpenApi

/-! The machine form of a schema. The walk below the root goes down the schema and through its
references; a reference to a handoff topic becomes a dependency and one that resolves to nothing
an unresolved entry. -/

namespace Nssf.Design

open Base

structure Scalar where
  type : Option String
  format : Option String
  pattern : Option String
  enum : Option (List String)
  nullable : Option Bool
  description : Option String
  deriving DecidableEq

inductive SchemaNode where
  | topic (id : String)
  | unresolved (ref : String)
  | cycle (name : String)
  | unknown
  | any
  | scalar (s : Scalar)
  | array (items : SchemaNode)
  | object (properties : List (String × Bool × SchemaNode)) (additional : Option SchemaNode)
      (inlinedFrom : Option String)

structure UnresolvedEntry where
  ref : String
  classification : String
  deriving DecidableEq

/-- The node and the entries it adds. -/
abbrev Emitted := SchemaNode × List UnresolvedEntry

namespace SchemaNode

def properties : SchemaNode → List (String × Bool × SchemaNode)
  | object ps _ _ => ps
  | _ => []

mutual

/-- The topics in a node, at any depth. -/
def topics : SchemaNode → List String
  | topic id => [id]
  | array n => topics n
  | object ps add _ => topicsIn ps ++ topicsOf add
  | unresolved _ => []
  | cycle _ => []
  | unknown => []
  | any => []
  | scalar _ => []

def topicsIn : List (String × Bool × SchemaNode) → List String
  | [] => []
  | (_, _, n) :: ps => topics n ++ topicsIn ps

def topicsOf : Option SchemaNode → List String
  | none => []
  | some n => topics n

end

section collect

variable {β : Type} (leaf : SchemaNode → List β)

mutual

/-- What is said of the places in a node where a reference was not opened, in their order. -/
def collect : SchemaNode → List β
  | array n => collect n
  | object ps add _ => collectIn ps ++ collectOf add
  | topic id => leaf (topic id)
  | unresolved ref => leaf (unresolved ref)
  | cycle name => leaf (cycle name)
  | unknown => []
  | any => []
  | scalar _ => []

def collectIn : List (String × Bool × SchemaNode) → List β
  | [] => []
  | (_, _, n) :: ps => collect n ++ collectIn ps

def collectOf : Option SchemaNode → List β
  | none => []
  | some n => collect n

end

theorem collectIn_append (ps qs : List (String × Bool × SchemaNode)) :
    collectIn leaf (ps ++ qs) = collectIn leaf ps ++ collectIn leaf qs := by
  induction ps with
  | nil => rfl
  | cons p ps ih =>
    simp only [List.cons_append, collectIn]
    rw [ih, List.append_assoc]

end collect

def topicLeaf : SchemaNode → List String
  | topic id => [id]
  | _ => []

def markLeaf : SchemaNode → List String
  | cycle name => [name]
  | _ => []

/-- The names in the cycle marks of a node. -/
def marks (n : SchemaNode) : List String := n.collect markLeaf

mutual

theorem topics_eq_collect : ∀ n : SchemaNode, n.topics = n.collect topicLeaf
  | topic _ => rfl
  | array n => topics_eq_collect n
  | object ps add _ => by
    simp only [topics, collect]
    rw [topicsIn_eq_collectIn ps, topicsOf_eq_collectOf add]
  | unresolved _ => rfl
  | cycle _ => rfl
  | unknown => rfl
  | any => rfl
  | scalar _ => rfl

theorem topicsIn_eq_collectIn :
    ∀ ps : List (String × Bool × SchemaNode), topicsIn ps = collectIn topicLeaf ps
  | [] => rfl
  | (_, _, n) :: ps => by
    simp only [topicsIn, collectIn]
    rw [topics_eq_collect n, topicsIn_eq_collectIn ps]

theorem topicsOf_eq_collectOf : ∀ n : Option SchemaNode, topicsOf n = collectOf topicLeaf n
  | none => rfl
  | some n => topics_eq_collect n

end

end SchemaNode

namespace EmitJson

/-- `^(default|[1-5][0-9][0-9])$`; a line break at the end is not looked at. -/
def isStatusCode (name : String) : Bool :=
  let cs := name.toList
  let cs := if cs.getLast? = some '\n' then cs.dropLast else cs
  match cs with
  | [a, b, c] => ('1' ≤ a && a ≤ '5') && ('0' ≤ b && b ≤ '9') && ('0' ≤ c && c ≤ '9')
  | _ => cs == "default".toList

def classifyUnresolvedRef (ref : String) : UnresolvedEntry where
  ref := ref
  classification :=
    let name := lastSegment ref.toList
    let filePart := ref.toList.takeWhile (· != '#')
    if isStatusCode name || name == "ProblemDetails" then "problem_details_response"
    else if '#' ∈ ref.toList && "TS29571_CommonData".toList.isPrefixOf filePart then
      "external_common_data"
    else "implementation_blocker"

/-- The keywords that are copied; without any of them the type is said to be an object. -/
def scalarOf (h : SchemaHead) : Scalar :=
  if h.type = none ∧ h.format = none ∧ h.pattern = none ∧ h.enum = none ∧ h.nullable = none then
    ⟨some "object", none, none, none, none, none⟩
  else ⟨h.type, h.format, h.pattern, h.enum, h.nullable, none⟩

def emptyHead : SchemaHead where
  ref := none
  type := none
  format := none
  pattern := none
  nullable := none
  enum := none
  description := none
  required := []
  additionalFlag := none
  emptyProperties := false
  emptyAllOf := false

abbrev Fields := List (String × Bool × SchemaNode)

def objectOf (inlinedFrom : Option String) (own arms : Fields × List UnresolvedEntry)
    (add : Option SchemaNode × List UnresolvedEntry) : Emitted :=
  (.object (own.1 ++ arms.1) add.1 inlinedFrom, own.2 ++ arms.2 ++ add.2)

def isObject (s : Schema) : Bool :=
  s.head.type == some "object" || s.hasProperties || s.hasAdditional

mutual

/-- `follow` is what a reference in this file comes to. -/
def resolveToNode (follow : String → Emitted) : Schema → Emitted
  | .mk h ks =>
    match h.ref with
    | some ref => follow ref
    | none =>
      if h.type = some "array" then
        let items := itemsNode follow ks
        (.array items.1, items.2)
      else if isObject (.mk h ks) then
        objectOf none (propertyNodes follow h.required ks) (armNodes follow ks)
          (additionalNode follow h.additionalFlag ks)
      else (.scalar (scalarOf h), [])

def schemaNode (follow : String → Emitted) (inlinedFrom : Option String) : Schema → Emitted
  | .mk h ks =>
    objectOf inlinedFrom (propertyNodes follow h.required ks) (armNodes follow ks)
      (additionalNode follow h.additionalFlag ks)

def propertyNodes (follow : String → Emitted) (required : List String) :
    List (Role × Schema) → Fields × List UnresolvedEntry
  | [] => ([], [])
  | (.property name, s) :: ks =>
    let node := resolveToNode follow s
    let rest := propertyNodes follow required ks
    ((name, required.contains name, node.1) :: rest.1, node.2 ++ rest.2)
  | _ :: ks => propertyNodes follow required ks

/-- The properties of the arms that have properties or required names of their own. -/
def armNodes (follow : String → Emitted) :
    List (Role × Schema) → Fields × List UnresolvedEntry
  | [] => ([], [])
  | (.allOf, s) :: ks =>
    let rest := armNodes follow ks
    if s.isArmed then
      let node := schemaNode follow none s
      (node.1.properties ++ rest.1, node.2 ++ rest.2)
    else rest
  | _ :: ks => armNodes follow ks

def itemsNode (follow : String → Emitted) : List (Role × Schema) → Emitted
  | [] => (.scalar (scalarOf emptyHead), [])
  | (.items, s) :: _ => resolveToNode follow s
  | _ :: ks => itemsNode follow ks

def additionalNode (follow : String → Emitted) (flag : Option Bool) :
    List (Role × Schema) → Option SchemaNode × List UnresolvedEntry
  | [] => (if flag = some true then some .any else none, [])
  | (.additional, s) :: _ =>
    let node := resolveToNode follow s
    (some node.1, node.2)
  | _ :: ks => additionalNode follow flag ks

end

/-- A schema that was resolved: its file and its name. -/
abbrev SchemaKey := DocFile × String

def keyOf (docs : Documents) (file : DocFile) (ref : String) : SchemaKey :=
  ((resolveRef docs ref file).file.getD file, (resolveRef docs ref file).schemaName)

/-- A reference, with the schemas that are open on the way to it. -/
def deref (docs : Documents) (index : String → Option String) :
    ℕ → List SchemaKey → DocFile → String → Emitted
  | 0, _, _, _ => (.unknown, [])
  | fuel + 1, visited, file, ref =>
    let rr := resolveRef docs ref file
    match index rr.schemaName with
    | some topic => (.topic topic, [])
    | none =>
      match rr.schema with
      | none => (.unresolved ref, [classifyUnresolvedRef ref])
      | some target =>
        let key := keyOf docs file ref
        if key ∈ visited then (.cycle rr.schemaName, [])
        else schemaNode (deref docs index fuel (key :: visited) key.1) (some ref) target

/-- Nothing but the scalar keywords of the arms is read. -/
def composed (arms : List Schema) (description : Option String) : SchemaNode :=
  let heads := arms.map Schema.head
  let enum := (heads.flatMap fun h => h.enum.getD []).foldl
    (fun seen e => if e ∈ seen then seen else seen ++ [e]) []
  let out : Scalar :=
    { type := heads.findSome? SchemaHead.type
      format := heads.findSome? SchemaHead.format
      pattern := heads.findSome? SchemaHead.pattern
      enum := if enum.isEmpty then none else some enum
      nullable := none
      description := none }
  if out = ⟨none, none, none, none, none, none⟩ then .unknown
  else .scalar { out with description := description }

def armsAt (role : Role) (s : Schema) : List Schema :=
  (s.kids.filter fun k => k.1 == role).map Prod.snd

def isObjectRoot (s : Schema) : Bool := isObject s || (armsAt .allOf s).any Schema.isArmed

def rootNode (follow : String → Emitted) (s : Schema) : Emitted :=
  if isObjectRoot s then schemaNode follow none s
  else if s.head.type = some "array" then resolveToNode follow s
  else
    let arms := if (armsAt .anyOf s).isEmpty then armsAt .oneOf s else armsAt .anyOf s
    if arms.isEmpty then
      let h := s.head
      if h.type = none ∧ h.format = none ∧ h.pattern = none ∧ h.enum = none ∧
          h.nullable = none then (.unknown, [])
      else (.scalar ⟨h.type, h.format, h.pattern, h.enum, h.nullable, h.description⟩, [])
    else (composed arms s.head.description, [])

/-- `tid.split("/", 1)[1]`. -/
def topicName? (topic : String) : Option String :=
  let cs := topic.toList
  if '/' ∈ cs then some (String.ofList (cs.dropWhile (· != '/')).tail) else none

/-- The last topic of a name; the root is no topic of its own. -/
def topicIndex (handoffTopics : List String) (rootName name : String) : Option String :=
  if name = rootName then none
  else handoffTopics.reverse.find? fun topic => topicName? topic == some name

def allRefs (docs : Documents) : List String :=
  docs.entries.flatMap fun d => d.2.schemas.flatMap fun e => e.2.refs

/-- Everything a reference in the documents can open. -/
def allKeys (docs : Documents) : List SchemaKey :=
  docs.keys.flatMap fun file => (allRefs docs).map (keyOf docs file)

structure Payload where
  topicId : String
  nf : String
  status : String
  classification : Option String
  rootSchema : String
  root : Option SchemaNode
  dependencies : List String
  unresolvedRefs : List UnresolvedEntry

def Payload.fields (p : Payload) : Fields := (p.root.map SchemaNode.properties).getD []

structure Request where
  yamlPath : DocFile
  rootSchemaName : String
  topicId : String
  nf : String
  status : String
  handoffTopics : List String

def Request.index (q : Request) : String → Option String :=
  topicIndex q.handoffTopics q.rootSchemaName

def Request.rootKey (q : Request) : SchemaKey := (q.yamlPath, q.rootSchemaName)

def rootSchema? (docs : Documents) (q : Request) : Option Schema :=
  (docs.get? q.yamlPath).bind fun d => d.at? ["components", "schemas", q.rootSchemaName]

def body (docs : Documents) (q : Request) (s : Schema) : Emitted :=
  rootNode (deref docs q.index ((allKeys docs).length + 1) [q.rootKey] q.yamlPath) s

def emitJson (docs : Documents) (q : Request) : Except String Payload :=
  if isStatusCode q.rootSchemaName then
    .ok ⟨q.topicId, q.nf, "classified", some "problem_details_response", q.rootSchemaName, none,
      [], [classifyUnresolvedRef q.rootSchemaName]⟩
  else
    match rootSchema? docs q with
    | none => .error ("[emit-json] root schema " ++ q.rootSchemaName ++ " not in " ++
        q.yamlPath.name)
    | some s =>
      let emitted := body docs q s
      .ok ⟨q.topicId, q.nf, q.status, none, q.rootSchemaName, some emitted.1,
        emitted.1.topics.dedup.mergeSort, emitted.2⟩

section visible

mutual

/-- The references that the walk looks at inside a schema. With `whole` unset, those that it
keeps in the node: the map values of an `allOf` arm are walked but left out of it. -/
def visible (whole : Bool) : Schema → List String
  | .mk h ks =>
    match h.ref with
    | some ref => [ref]
    | none =>
      if h.type = some "array" then visibleItems whole ks
      else if isObject (.mk h ks) then
        visibleProperties whole ks ++ visibleArms whole ks ++ visibleAdditional whole ks
      else []

def visibleObject (whole : Bool) : Schema → List String
  | .mk _ ks => visibleProperties whole ks ++ visibleArms whole ks ++ visibleAdditional whole ks

def visibleFields (whole : Bool) : Schema → List String
  | .mk _ ks => visibleProperties whole ks ++ visibleArms whole ks

def visibleProperties (whole : Bool) : List (Role × Schema) → List String
  | [] => []
  | (.property _, s) :: ks => visible whole s ++ visibleProperties whole ks
  | _ :: ks => visibleProperties whole ks

def visibleArms (whole : Bool) : List (Role × Schema) → List String
  | [] => []
  | (.allOf, s) :: ks =>
    (if s.isArmed then if whole then visibleObject whole s else visibleFields whole s else []) ++
      visibleArms whole ks
  | _ :: ks => visibleArms whole ks

def visibleItems (whole : Bool) : List (Role × Schema) → List String
  | [] => []
  | (.items, s) :: _ => visible whole s
  | _ :: ks => visibleItems whole ks

def visibleAdditional (whole : Bool) : List (Role × Schema) → List String
  | [] => []
  | (.additional, s) :: _ => visible whole s
  | _ :: ks => visibleAdditional whole ks

end

def visibleRoot (whole : Bool) (s : Schema) : List String :=
  if isObjectRoot s then visibleObject whole s
  else if s.head.type = some "array" then visible whole s
  else []

variable (follow : String → Emitted)

mutual

theorem entries_resolveToNode : ∀ s : Schema,
    (resolveToNode follow s).2 = (visible true s).flatMap fun r => (follow r).2
  | .mk h ks => by
    simp only [resolveToNode, visible]
    cases h.ref with
    | some ref => rw [List.flatMap_singleton]
    | none =>
      simp only
      split_ifs
      · exact entries_itemsNode ks
      · simp only [objectOf, List.flatMap_append]
        rw [entries_propertyNodes h.required ks, entries_armNodes ks,
          entries_additionalNode h.additionalFlag ks]
      · rfl

theorem entries_schemaNode (inlinedFrom : Option String) : ∀ s : Schema,
    (schemaNode follow inlinedFrom s).2 =
      (visibleObject true s).flatMap fun r => (follow r).2
  | .mk h ks => by
    simp only [schemaNode, visibleObject, objectOf, List.flatMap_append]
    rw [entries_propertyNodes h.required ks, entries_armNodes ks,
      entries_additionalNode h.additionalFlag ks]

theorem entries_propertyNodes (required : List String) : ∀ ks : List (Role × Schema),
    (propertyNodes follow required ks).2 =
      (visibleProperties true ks).flatMap fun r => (follow r).2
  | [] => rfl
  | (.property _, s) :: ks => by
    simp only [propertyNodes, visibleProperties, List.flatMap_append]
    rw [entries_resolveToNode s, entries_propertyNodes required ks]
  | (.items, _) :: ks => entries_propertyNodes required ks
  | (.additional, _) :: ks => entries_propertyNodes required ks
  | (.allOf, _) :: ks => entries_propertyNodes required ks
  | (.anyOf, _) :: ks => entries_propertyNodes required ks
  | (.oneOf, _) :: ks => entries_propertyNodes required ks

theorem entries_armNodes : ∀ ks : List (Role × Schema),
    (armNodes follow ks).2 = (visibleArms true ks).flatMap fun r => (follow r).2
  | [] => rfl
  | (.allOf, s) :: ks => by
    simp only [armNodes, visibleArms, List.flatMap_append]
    split_ifs with harmed
    · rw [entries_schemaNode none s, entries_armNodes ks]
    · rw [entries_armNodes ks]
      rfl
  | (.property _, _) :: ks => entries_armNodes ks
  | (.items, _) :: ks => entries_armNodes ks
  | (.additional, _) :: ks => entries_armNodes ks
  | (.anyOf, _) :: ks => entries_armNodes ks
  | (.oneOf, _) :: ks => entries_armNodes ks

theorem entries_itemsNode : ∀ ks : List (Role × Schema),
    (itemsNode follow ks).2 = (visibleItems true ks).flatMap fun r => (follow r).2
  | [] => rfl
  | (.items, s) :: _ => entries_resolveToNode s
  | (.property _, _) :: ks => entries_itemsNode ks
  | (.additional, _) :: ks => entries_itemsNode ks
  | (.allOf, _) :: ks => entries_itemsNode ks
  | (.anyOf, _) :: ks => entries_itemsNode ks
  | (.oneOf, _) :: ks => entries_itemsNode ks

theorem entries_additionalNode (flag : Option Bool) : ∀ ks : List (Role × Schema),
    (additionalNode follow flag ks).2 =
      (visibleAdditional true ks).flatMap fun r => (follow r).2
  | [] => rfl
  | (.additional, s) :: _ => entries_resolveToNode s
  | (.property _, _) :: ks => entries_additionalNode flag ks
  | (.items, _) :: ks => entries_additionalNode flag ks
  | (.allOf, _) :: ks => entries_additionalNode flag ks
  | (.anyOf, _) :: ks => entries_additionalNode flag ks
  | (.oneOf, _) :: ks => entries_additionalNode flag ks

end

variable {β : Type} (leaf : SchemaNode → List β)

mutual

theorem collect_resolveToNode : ∀ s : Schema,
    (resolveToNode follow s).1.collect leaf =
      (visible false s).flatMap fun r => (follow r).1.collect leaf
  | .mk h ks => by
    simp only [resolveToNode, visible]
    cases h.ref with
    | some ref => rw [List.flatMap_singleton]
    | none =>
      simp only
      split_ifs
      · exact collect_itemsNode ks
      · simp only [objectOf, List.flatMap_append, SchemaNode.collect, SchemaNode.collectIn_append]
        rw [collect_propertyNodes h.required ks, collect_armNodes ks,
          collect_additionalNode h.additionalFlag ks]
      · rfl

theorem collect_schemaNode (inlinedFrom : Option String) : ∀ s : Schema,
    (schemaNode follow inlinedFrom s).1.collect leaf =
      (visibleObject false s).flatMap fun r => (follow r).1.collect leaf
  | .mk h ks => by
    simp only [schemaNode, visibleObject, objectOf, List.flatMap_append, SchemaNode.collect,
      SchemaNode.collectIn_append]
    rw [collect_propertyNodes h.required ks, collect_armNodes ks,
      collect_additionalNode h.additionalFlag ks]

theorem collect_properties (inlinedFrom : Option String) : ∀ s : Schema,
    SchemaNode.collectIn leaf (schemaNode follow inlinedFrom s).1.properties =
      (visibleFields false s).flatMap fun r => (follow r).1.collect leaf
  | .mk h ks => by
    simp only [schemaNode, visibleFields, objectOf, List.flatMap_append, SchemaNode.properties,
      SchemaNode.collectIn_append]
    rw [collect_propertyNodes h.required ks, collect_armNodes ks]

theorem collect_propertyNodes (required : List String) : ∀ ks : List (Role × Schema),
    SchemaNode.collectIn leaf (propertyNodes follow required ks).1 =
      (visibleProperties false ks).flatMap fun r => (follow r).1.collect leaf
  | [] => rfl
  | (.property _, s) :: ks => by
    simp only [propertyNodes, visibleProperties, List.flatMap_append, SchemaNode.collectIn]
    rw [collect_resolveToNode s, collect_propertyNodes required ks]
  | (.items, _) :: ks => collect_propertyNodes required ks
  | (.additional, _) :: ks => collect_propertyNodes required ks
  | (.allOf, _) :: ks => collect_propertyNodes required ks
  | (.anyOf, _) :: ks => collect_propertyNodes required ks
  | (.oneOf, _) :: ks => collect_propertyNodes required ks

theorem collect_armNodes : ∀ ks : List (Role × Schema),
    SchemaNode.collectIn leaf (armNodes follow ks).1 =
      (visibleArms false ks).flatMap fun r => (follow r).1.collect leaf
  | [] => rfl
  | (.allOf, s) :: ks => by
    simp only [armNodes, visibleArms, List.flatMap_append]
    by_cases harmed : s.isArmed = true
    · rw [if_pos harmed, if_pos harmed, SchemaNode.collectIn_append, collect_properties none s,
        collect_armNodes ks]
      rfl
    · rw [if_neg harmed, if_neg harmed, collect_armNodes ks]
      rfl
  | (.property _, _) :: ks => collect_armNodes ks
  | (.items, _) :: ks => collect_armNodes ks
  | (.additional, _) :: ks => collect_armNodes ks
  | (.anyOf, _) :: ks => collect_armNodes ks
  | (.oneOf, _) :: ks => collect_armNodes ks

theorem collect_itemsNode : ∀ ks : List (Role × Schema),
    (itemsNode follow ks).1.collect leaf =
      (visibleItems false ks).flatMap fun r => (follow r).1.collect leaf
  | [] => rfl
  | (.items, s) :: _ => collect_resolveToNode s
  | (.property _, _) :: ks => collect_itemsNode ks
  | (.additional, _) :: ks => collect_itemsNode ks
  | (.allOf, _) :: ks => collect_itemsNode ks
  | (.anyOf, _) :: ks => collect_itemsNode ks
  | (.oneOf, _) :: ks => collect_itemsNode ks

theorem collect_additionalNode (flag : Option Bool) : ∀ ks : List (Role × Schema),
    SchemaNode.collectOf leaf (additionalNode follow flag ks).1 =
      (visibleAdditional false ks).flatMap fun r => (follow r).1.collect leaf
  | [] => by
    simp only [additionalNode, visibleAdditional]
    split_ifs
    · rfl
    · rfl
  | (.additional, s) :: _ => collect_resolveToNode s
  | (.property _, _) :: ks => collect_additionalNode flag ks
  | (.items, _) :: ks => collect_additionalNode flag ks
  | (.allOf, _) :: ks => collect_additionalNode flag ks
  | (.anyOf, _) :: ks => collect_additionalNode flag ks
  | (.oneOf, _) :: ks => collect_additionalNode flag ks

end

theorem entries_rootNode (s : Schema) :
    (rootNode follow s).2 = (visibleRoot true s).flatMap fun r => (follow r).2 := by
  simp only [rootNode, visibleRoot]
  split_ifs
  · exact entries_schemaNode follow none s
  · exact entries_resolveToNode follow s
  all_goals rfl

theorem collect_composed (arms : List Schema) (description : Option String) :
    (composed arms description).collect leaf = [] := by
  simp only [composed]
  split_ifs <;> rfl

theorem collect_rootNode (s : Schema) :
    (rootNode follow s).1.collect leaf =
      (visibleRoot false s).flatMap fun r => (follow r).1.collect leaf := by
  simp only [rootNode, visibleRoot]
  split_ifs
  · exact collect_schemaNode follow leaf none s
  · exact collect_resolveToNode follow leaf s
  · rfl
  · rfl
  · exact collect_composed leaf _ _
  · exact collect_composed leaf _ _

theorem topics_schemaNode (inlinedFrom : Option String) (s : Schema) :
    (schemaNode follow inlinedFrom s).1.topics =
      (visibleObject false s).flatMap fun r => (follow r).1.topics := by
  simp only [SchemaNode.topics_eq_collect]
  exact collect_schemaNode follow _ inlinedFrom s

theorem topics_rootNode (s : Schema) :
    (rootNode follow s).1.topics = (visibleRoot false s).flatMap fun r => (follow r).1.topics := by
  simp only [SchemaNode.topics_eq_collect]
  exact collect_rootNode follow _ s

end visible

end EmitJson

end Nssf.Design
