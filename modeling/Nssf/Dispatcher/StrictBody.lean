import Nssf.Dispatcher.PgCalls
import Nssf.Dispatcher.RoundTrip

/-! The bodies that leave the node. A body that is kept as a tree is printed anew and is a JSON text
whenever its strings are in UTF-8. One that is kept as a string goes out as it stands, and the
check that it is JSON looks no further than its first value. -/

namespace Nssf

open Base JsonText Run

/-- What is kept goes out as one JSON text. -/
def Sendable : Json → Prop
  | .string s => IsText s.toList
  | body => Json.AllStrings Json.Utf8String body

def StrictlyStored (text : String) : Prop := ∀ body, storedBody? text = some body → Sendable body

theorem isText_bodyText_iff {body : Json} {text : String} (h : bodyText? body = some text) :
    IsText text.toList ↔ Sendable body := by
  have hprint {j : Json} (hj : some (Json.printText j) = some text) :
      IsText text.toList ↔ Json.AllStrings Json.Utf8String j := by
    obtain rfl := Option.some.inj hj
    rw [Json.printText, String.toList_ofList]
    exact Json.isText_printValue_iff
  cases body with
  | null => cases h
  | string s =>
    obtain rfl := Option.some.inj h
    exact Iff.rfl
  | bool b => exact hprint h
  | number d => exact hprint h
  | array xs => exact hprint h
  | object ms => exact hprint h

theorem Carries.isText_iff {text : String} {parts : EnvelopeParts} (h : Carries text parts) :
    IsText parts.body.toList ↔ StrictlyStored text := by
  obtain ⟨body, hstored, htext, -⟩ := h
  rw [isText_bodyText_iff htext]
  constructor
  · intro hbody other hother
    obtain rfl := Option.some.inj (hstored.symm.trans hother)
    exact hbody
  · intro hall
    exact hall body hstored

section claims

/-- A dequeue of one of the stores claims a row that keeps `text`, and hands `item` out. -/
inductive Claims (text : String) (item : RetryItem) : Prop where
  | memory {q q' : RetryStore} {e e' : Env} {row : Row} {i : ℕ}
      (pick : q.pickDue e.clockMs.head = some (row, i)) (stored : row.envelope = text)
      (run : q.memDequeue e = .ok ((.claimed item, q'), e'))
  | postgres {w : ServerTurn} {s s' : Pg.PgStore} {e e' : Env} {row : Pg.PgRow}
      (pick : s.selected w = some row) (stored : row.payload = text)
      (run : Pg.pgDequeue w s e = .ok ((.claimed item, s'), e'))

variable {item : RetryItem} {e e' : Env}

theorem memDequeue_picks {q q' : RetryStore} (h : q.memDequeue e = .ok ((.claimed item, q'), e')) :
    ∃ row i, q.pickDue e.clockMs.head = some (row, i) ∧
      ∃ parts, Carries row.envelope parts ∧ item.payloadJson = parts.body := by
  unfold RetryStore.memDequeue at h
  obtain ⟨now, e₁, hnow, h⟩ := Prog.bind_eq_ok.1 h
  cases hnow
  cases hpick : q.pickDue e.clockMs.head with
  | none =>
    rw [hpick] at h
    cases h
  | some p =>
    rw [hpick] at h
    obtain ⟨row, i⟩ := p
    obtain ⟨-, -, hparts⟩ := ((RetryStore.gives_claimRow_item row i).of_ok h).1 item rfl
    exact ⟨row, i, rfl, hparts⟩

theorem readRow_carries {row : Pg.PgRow} (h : Pg.readRow row e = .ok (.item item, e')) :
    ∃ parts, Carries row.payload parts ∧ item.payloadJson = parts.body := by
  simp only [Pg.readRow] at h
  obtain ⟨env, e₁, henv, h⟩ := Prog.bind_eq_ok.1 h
  obtain ⟨id, e₂, -, h⟩ := Prog.bind_eq_ok.1 h
  obtain ⟨sub, e₃, -, h⟩ := Prog.bind_eq_ok.1 h
  have hcopy := ((gives_allocated (F := fun _ => True) row.payload).of_ok henv).1
  cases env with
  | none => cases h
  | some env =>
    obtain rfl : env = row.payload := by simpa using hcopy
    cases id with
    | none => cases h
    | some id =>
      cases sub with
      | none => cases h
      | some sub =>
        obtain ⟨parts, e₄, hsplit, h⟩ := Prog.bind_eq_ok.1 h
        cases parts with
        | none => cases h
        | some parts =>
          cases h
          exact ⟨parts, ((gives_envelopeSplit_parts _).of_ok hsplit).1 parts rfl, rfl⟩

theorem pgDequeue_picks {w : ServerTurn} {s s' : Pg.PgStore}
    (h : Pg.pgDequeue w s e = .ok ((.claimed item, s'), e')) :
    ∃ row, s.selected w = some row ∧
      ∃ parts, Carries row.payload parts ∧ item.payloadJson = parts.body := by
  simp only [Pg.pgDequeue] at h
  cases hbegin : w.answers 0 with
  | failed ended =>
    rw [hbegin, if_pos (by simp)] at h
    cases h
  | done =>
    rw [hbegin, if_neg (by simp)] at h
    cases hselect : w.answers 1 with
    | failed ended =>
      rw [hselect, if_pos (by simp)] at h
      cases h
    | done =>
      rw [hselect, if_neg (by simp)] at h
      have hsel : Pg.pgSelect ((s.session.start w.now .done).now w.now)
          (s.session.start w.now .done).view = s.selected w := rfl
      rw [hsel] at h
      cases hrow : s.selected w with
      | none =>
        rw [hrow] at h
        cases h
      | some row =>
        rw [hrow] at h
        obtain ⟨read, e₁, hread, h⟩ := Prog.bind_eq_ok.1 h
        cases read with
        | short => cases h
        | poison =>
          dsimp only at h
          split_ifs at h
          all_goals cases h
        | item _ =>
          cases h
          exact ⟨row, rfl, readRow_carries hread⟩

theorem Claims.carries {text : String} (h : Claims text item) :
    ∃ parts, Carries text parts ∧ item.payloadJson = parts.body := by
  cases h with
  | memory pick stored run =>
    obtain ⟨row, i, hpick, hparts⟩ := memDequeue_picks run
    obtain ⟨rfl, rfl⟩ := Prod.mk.inj (Option.some.inj (pick.symm.trans hpick))
    rwa [stored] at hparts
  | postgres pick stored run =>
    obtain ⟨row, hpick, hparts⟩ := pgDequeue_picks run
    obtain rfl := Option.some.inj (pick.symm.trans hpick)
    rwa [stored] at hparts

/-- What is claimed leaves the node as one JSON text exactly when the row keeps it so. -/
theorem claimed_isText_iff {text : String} (h : Claims text item) :
    IsText item.payloadJson.toList ↔ StrictlyStored text := by
  obtain ⟨parts, hparts, hbody⟩ := h.carries
  rw [hbody]
  exact hparts.isText_iff

theorem claimed_isText_plain :
    ∃ text, Claims text plainItem ∧ StrictlyStored text ∧ IsText plainItem.payloadJson.toList := by
  have hclaim : Prog.seen? (fun r _ => r.1) (plainQueue false).memDequeue Env.quiet =
      some (.claimed plainItem) := by
    decide +kernel
  obtain ⟨⟨got, q'⟩, e', hrun, rfl⟩ := Prog.exists_of_seen? hclaim
  have hclaims : Claims _ plainItem := .memory rfl rfl hrun
  have hstrict : StrictlyStored "\x7b\"callbackUri\":\"http://a\",\"body\":\x7b\x7d\x7d" := by
    intro body hbody
    have hstored : storedBody? "\x7b\"callbackUri\":\"http://a\",\"body\":\x7b\x7d\x7d" =
        some (.object []) := by
      decide +kernel
    obtain rfl := Option.some.inj (hstored.symm.trans hbody)
    exact trivial
  exact ⟨_, hclaims, hstrict, (claimed_isText_iff hclaims).2 hstrict⟩

/-- The row of a queue that keeps its body as the string `true x`. -/
def looseQueue : RetryStore :=
  ⟨[⟨1, "s", "\x7b\"callbackUri\":\"https://a\",\"body\":\"true x\"\x7d", 0, false, .pending, 0⟩],
    2⟩

def looseItem : RetryItem := ⟨1, "s", some "https://a", "true x", none, 0⟩

theorem not_isText_loose : ¬IsText "true x".toList := by
  rw [Json.isText_iff]
  rintro ⟨t, -, w, w', hs⟩
  change ['t', 'r', 'u', 'e', ' ', 'x'] = w.chars ++ (t.text ++ w'.chars) at hs
  cases hw : w.chars with
  | cons c cs =>
    rw [hw, List.cons_append] at hs
    obtain rfl := (List.cons.inj hs).1
    have hblank := w.blank 't' (by rw [hw]; exact List.mem_cons_self)
    cases hblank
  | nil =>
    rw [hw, List.nil_append] at hs
    have hhead {c : Char} {cs : List Char} (hne : 't' ≠ c) (htext : t.text = c :: cs) : False := by
      rw [htext, List.cons_append] at hs
      exact hne (List.cons.inj hs).1
    cases t with
    | null => exact hhead (by decide) rfl
    | bool b =>
      cases b with
      | false => exact hhead (by decide) rfl
      | true =>
        have hrest : [' ', 'x'] = w'.chars := by simpa [Tree.text] using hs
        have hblank := w'.blank 'x' (by simp [← hrest])
        cases hblank
    | number n =>
      obtain ⟨c, cs, htext, hc⟩ := n.text_head
      refine hhead ?_ htext
      rintro rfl
      rcases hc with hc | hc
      · cases hc
      · cases hc
    | string ps => exact hhead (by decide) rfl
    | array w items => exact hhead (by decide) rfl
    | object w members => exact hhead (by decide) rfl

/-- The payload `"true x"` is a JSON text, and its row hands out `true x`. -/
theorem claimed_loose :
    Prog.result? (retryStoreNewInmemory.enqueue (some "s") (some "https://a")
      (some "\"true x\"") none) Env.quiet = some (true, looseQueue) ∧
    (∃ q' e', looseQueue.memDequeue Env.quiet = .ok ((.claimed looseItem, q'), e')) ∧
    ¬IsText looseItem.payloadJson.toList := by
  have hclaim : Prog.seen? (fun r _ => r.1) looseQueue.memDequeue Env.quiet =
      some (.claimed looseItem) := by
    decide +kernel
  obtain ⟨⟨got, q'⟩, e', hrun, rfl⟩ := Prog.exists_of_seen? hclaim
  exact ⟨by decide +kernel, ⟨q', e', hrun⟩, not_isText_loose⟩

end claims

end Nssf
