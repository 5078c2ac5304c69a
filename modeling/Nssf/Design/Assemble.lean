import Nssf.Design.UserBlocks

/-! The text of a topic: front matter, the generated sections of its category and its user
sections. A user section keeps the body that the old text has for it; without one, or with a
blank one, it gets a placeholder. -/

namespace Nssf.Design.Contract

open Base Base.Matches Base.PyText UserBlocks

inductive Category where
  | interface
  | api
  | dataModel
  | errorHandling
  | moduleDecomposition
  | serviceScenarios
  | behaviorState
  | failurePolicy
  | configuration
  | persistence
  | testMatrix
  | workPlan
  | crossNf
  deriving DecidableEq

namespace Category

def name : Category → String
  | interface => "interface"
  | api => "api"
  | dataModel => "data-model"
  | errorHandling => "error-handling"
  | moduleDecomposition => "module-decomposition"
  | serviceScenarios => "service-scenarios"
  | behaviorState => "behavior-state"
  | failurePolicy => "failure-policy"
  | configuration => "configuration"
  | persistence => "persistence"
  | testMatrix => "test-matrix"
  | workPlan => "work-plan"
  | crossNf => "cross-nf"

def autoIds : Category → List String
  | interface => ["auth-block", "transport-block"]
  | api => ["api-matrix", "request-schema", "response-schema"]
  | dataModel => ["chain-tree", "field-table"]
  | errorHandling => ["error-matrix"]
  | moduleDecomposition => ["module-graph"]
  | serviceScenarios => ["scenario-index"]
  | behaviorState => ["state-index"]
  | failurePolicy => ["failure-index"]
  | configuration => ["config-index"]
  | persistence => ["persistence-index"]
  | testMatrix => ["test-index"]
  | workPlan => ["work-index"]
  | crossNf => ["crossnf-index"]

def userIds : Category → List String
  | interface => ["implementation-notes"]
  | api => ["implementation-notes"]
  | dataModel => ["implementation-notes"]
  | errorHandling => ["recovery-prose", "implementation-notes"]
  | moduleDecomposition => ["responsibility-prose", "implementation-notes"]
  | serviceScenarios => ["scenario-prose"]
  | behaviorState => ["state-prose"]
  | failurePolicy => ["policy-prose"]
  | configuration => ["policy-notes"]
  | persistence => ["policy-notes"]
  | testMatrix => ["coverage-notes"]
  | workPlan => ["plan-notes"]
  | crossNf => ["crossnf-notes"]

/-- The USER ids of the schema. -/
def uids (c : Category) : List Text := c.userIds.map String.toList

def aids (c : Category) : List Text := c.autoIds.map String.toList

end Category

def user : Text := "USER".toList

def auto : Text := "AUTO".toList

/-- A topic without a file has no blocks. -/
def extractUserBlocks (w : WordClass) (old : Option Text) : Dict Text Text :=
  match old with
  | some text => extractBlocks w user text
  | none => .empty

def placeholder (uid : Text) : Text :=
  "TODO: ".toList ++ uid ++ " — 사람이 보강 (fresh placeholder).".toList

def userBody (preserved : Dict Text Text) (uid : Text) : Text :=
  match preserved.get? uid with
  | some body => if strip body = [] then placeholder uid else body
  | none => placeholder uid

def userBlock (preserved : Dict Text Text) (uid : Text) : Text :=
  blockText user uid (userBody preserved uid)

def autoBlock (aid body : Text) : Text := blockText auto aid body

def listed (id : Text) : Text := "  - ".toList ++ id ++ ['\n']

def frontmatter (topicId status : Text) (c : Category) : Text :=
  "---\n".toList ++
  ("topic_id: ".toList ++ topicId ++ ['\n']) ++
  ("category: ".toList ++ c.name.toList ++ ['\n']) ++
  ("status: ".toList ++ status ++ ['\n']) ++
  "generated_sections:\n".toList ++ (c.aids.map listed).flatten ++
  "user_sections:\n".toList ++ (c.uids.map listed).flatten ++
  "---\n".toList

def autoBody (bodies : Dict Text Text) (aid : Text) : Text :=
  (bodies.get? aid).getD ("TODO(AUTO ".toList ++ aid ++ ")".toList)

def assemble (topicId status : Text) (c : Category) (bodies preserved : Dict Text Text) : Text :=
  rstrip (joinTexts ([frontmatter topicId status c, [], "# ".toList ++ topicId ++ ['\n']] ++
    c.aids.flatMap (fun aid => [autoBlock aid (autoBody bodies aid), []]) ++
    c.uids.flatMap fun uid => [userBlock preserved uid, []])) ++ ['\n']

/-- What a run writes into the file of a topic. -/
def regenerate (w : WordClass) (topicId status : Text) (c : Category) (bodies : Dict Text Text)
    (old : Option Text) : Text :=
  assemble topicId status c bodies (extractUserBlocks w old)

end Nssf.Design.Contract
