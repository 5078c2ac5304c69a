import Mathlib.Data.List.Basic
import Nssf.Base.Binary64
import Nssf.Base.Faulting

/-! The JSON trees of the bundled parser. A node is its type and its children in order; the
name of a member lives with the member, so only the children of an object have one. Looking
up a name below a non-empty array therefore reads a missing name, which is a fault here. -/

namespace Nssf

open Base

inductive Fault where
  -- `strcmp` against the absent name of an array element
  | nullName
  -- a read or write below a node that was already deleted
  | useAfterFree
  -- a write behind the end of an array
  | outOfBounds
  -- `strcmp` against the absent text of a node that is no string
  | nullText
  deriving DecidableEq, Repr

/-- Every fault but the lookup in a non-empty array. -/
def OtherFault (x : Fault) : Prop := x ≠ .nullName

theorem otherFault_of_outOfBounds {x : Fault} (h : x = .outOfBounds) : OtherFault x := by
  rw [h]
  intro hn
  cases hn

inductive Json where
  | null
  | bool (b : Bool)
  | number (d : Binary64)
  | string (s : String)
  | array (items : List Json)
  | object (members : List (String × Json))
  deriving Inhabited

namespace Json

mutual

def same : Json → Json → Bool
  | .null, .null => true
  | .bool a, .bool b => a == b
  | .number a, .number b => a == b
  | .string a, .string b => a == b
  | .array xs, .array ys => sameItems xs ys
  | .object ms, .object ns => sameMembers ms ns
  | _, _ => false

def sameItems : List Json → List Json → Bool
  | [], [] => true
  | x :: xs, y :: ys => same x y && sameItems xs ys
  | _, _ => false

def sameMembers : List (String × Json) → List (String × Json) → Bool
  | [], [] => true
  | (k, x) :: ms, (l, y) :: ns => k == l && (same x y && sameMembers ms ns)
  | _, _ => false

end

mutual

theorem same_iff : ∀ a b : Json, same a b = true ↔ a = b
  | .null, b => by cases b <;> simp [same]
  | .bool a, b => by cases b <;> simp [same]
  | .number a, b => by cases b <;> simp [same]
  | .string a, b => by cases b <;> simp [same]
  | .array xs, b => by cases b <;> simp [same, sameItems_iff xs]
  | .object ms, b => by cases b <;> simp [same, sameMembers_iff ms]

theorem sameItems_iff : ∀ xs ys : List Json, sameItems xs ys = true ↔ xs = ys
  | [], ys => by cases ys <;> simp [sameItems]
  | x :: xs, ys => by cases ys <;> simp [sameItems, same_iff x, sameItems_iff xs]

theorem sameMembers_iff :
    ∀ ms ns : List (String × Json), sameMembers ms ns = true ↔ ms = ns
  | [], ns => by cases ns <;> simp [sameMembers]
  | (k, x) :: ms, ns => by
    rcases ns with _ | ⟨⟨l, y⟩, ns⟩
    · simp [sameMembers]
    · simp [sameMembers, same_iff x, sameMembers_iff ms, and_assoc]

end

instance : DecidableEq Json := fun a b => decidable_of_iff _ (same_iff a b)

def isObject : Json → Bool
  | .object _ => true
  | _ => false

def isArray : Json → Bool
  | .array _ => true
  | _ => false

def isString : Json → Bool
  | .string _ => true
  | _ => false

def isNumber : Json → Bool
  | .number _ => true
  | _ => false

def isNull : Json → Bool
  | .null => true
  | _ => false

def string? : Json → Option String
  | .string s => some s
  | _ => none

def items : Json → List Json
  | .array xs => xs
  | .object ms => ms.map Prod.snd
  | _ => []

def findMember (ms : List (String × Json)) (name : String) : Option Json :=
  (ms.find? fun m => m.1 == name).map Prod.snd

def member? : Json → String → Option Json
  | .object ms, name => findMember ms name
  | _, _ => none

def Lookable : Json → Prop
  | .array (_ :: _) => False
  | _ => True

instance : DecidablePred Lookable
  | .array (_ :: _) => isFalse id
  | .array [] => isTrue trivial
  | .null => isTrue trivial
  | .bool _ => isTrue trivial
  | .number _ => isTrue trivial
  | .string _ => isTrue trivial
  | .object _ => isTrue trivial

/-- `cJSON_GetObjectItemCaseSensitive`. -/
def getObjectItem {σ : Type} (node : Option Json) (name : String) :
    Prog σ Fault (Option Json) :=
  match node with
  | none => pure none
  | some (.array (_ :: _)) => throw .nullName
  | some j => pure (j.member? name)

/-- `cJSON_AddItemToObject` on an object: the name is not looked for. -/
def addItem : Json → String → Json → Json
  | .object ms, name, v => .object (ms ++ [(name, v)])
  | j, _, _ => j

/-- `cJSON_DeleteItemFromObjectCaseSensitive`: only the first member of the name goes. -/
def deleteItem : Json → String → Json
  | .object ms, name => .object (ms.eraseP fun m => m.1 == name)
  | j, _ => j

mutual

def depth : Json → ℕ
  | .array xs => depthItems xs + 1
  | .object ms => depthMembers ms + 1
  | _ => 0

def depthItems : List Json → ℕ
  | [] => 0
  | x :: xs => max (depth x) (depthItems xs)

def depthMembers : List (String × Json) → ℕ
  | [] => 0
  | (_, x) :: ms => max (depth x) (depthMembers ms)

end

/-- `cJSON_Compare` down to a depth: objects compare by looking each member up in the
other, arrays element by element. -/
def compareTo : ℕ → Json → Json → Bool
  | _, .null, .null => true
  | _, .bool a, .bool b => a == b
  | _, .number a, .number b => a.eqC b
  | _, .string a, .string b => a == b
  | n + 1, .array xs, .array ys =>
    xs.length == ys.length && (xs.zip ys).all fun p => compareTo n p.1 p.2
  | n + 1, .object ms, .object ns =>
    (ms.all fun m => (findMember ns m.1).any fun y => compareTo n m.2 y) &&
      ns.all fun m => (findMember ms m.1).any fun x => compareTo n m.2 x
  | _, _, _ => false

def compare (a b : Json) : Bool := compareTo (max a.depth b.depth) a b

theorem getObjectItem_of_lookable {σ : Type} {j : Json} (h : j.Lookable) (name : String) :
    getObjectItem (σ := σ) (some j) name = pure (j.member? name) := by
  match j, h with
  | .array [], _ => rfl
  | .null, _ => rfl
  | .bool _, _ => rfl
  | .number _, _ => rfl
  | .string _, _ => rfl
  | .object _, _ => rfl

theorem getObjectItem_returns_iff {σ : Type} {j : Json} {name : String} {s : σ} :
    Prog.Returns (getObjectItem (some j) name) s ↔ j.Lookable := by
  constructor
  · rintro ⟨r, h⟩
    match j with
    | .array (_ :: _) => cases h
    | .array [] => trivial
    | .null => trivial
    | .bool _ => trivial
    | .number _ => trivial
    | .string _ => trivial
    | .object _ => trivial
  · intro h
    rw [getObjectItem_of_lookable h]
    exact ⟨_, rfl⟩

theorem lookable_object (ms : List (String × Json)) : (Json.object ms).Lookable := trivial

theorem lookable_of_isObject {j : Json} (h : j.isObject = true) : j.Lookable := by
  cases j with
  | object ms => trivial
  | _ => simp [isObject] at h

end Json

end Nssf
