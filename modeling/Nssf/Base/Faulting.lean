import Mathlib.Control.Lawful
import Mathlib.Data.Stream.Init

/-! Programs that pass a state along and may stop in a fault. `wp` asks that the program
returns and ends in the postcondition, `wlp` only that it ends there if it returns. -/

namespace Nssf.Base

abbrev Prog (σ ε : Type) := StateT σ (Except ε)

namespace Prog

variable {σ ε α β : Type}

def wp (m : Prog σ ε α) (Q : α → σ → Prop) (s : σ) : Prop :=
  ∃ a s', m s = .ok (a, s') ∧ Q a s'

def wlp (m : Prog σ ε α) (Q : α → σ → Prop) (s : σ) : Prop :=
  ∀ a s', m s = .ok (a, s') → Q a s'

def Returns (m : Prog σ ε α) (s : σ) : Prop := ∃ r, m s = .ok r

theorem pure_apply (a : α) (s : σ) : (pure a : Prog σ ε α) s = .ok (a, s) := rfl

theorem bind_apply (m : Prog σ ε α) (f : α → Prog σ ε β) (s : σ) :
    (m >>= f) s = (m s).bind fun r => f r.1 r.2 := rfl

theorem bind_of_ok {m : Prog σ ε α} {f : α → Prog σ ε β} {s s' : σ} {a : α}
    (h : m s = .ok (a, s')) : (m >>= f) s = f a s' := by
  rw [bind_apply, h]
  rfl

theorem bind_of_error {m : Prog σ ε α} {f : α → Prog σ ε β} {s : σ} {e : ε}
    (h : m s = .error e) : (m >>= f) s = .error e := by
  rw [bind_apply, h]
  rfl

theorem bind_eq_ok {m : Prog σ ε α} {f : α → Prog σ ε β} {s s'' : σ} {b : β} :
    (m >>= f) s = .ok (b, s'') ↔ ∃ a s', m s = .ok (a, s') ∧ f a s' = .ok (b, s'') := by
  constructor
  · intro h
    rcases hm : m s with e | ⟨a, s'⟩
    · rw [bind_of_error hm] at h
      cases h
    · rw [bind_of_ok hm] at h
      exact ⟨a, s', rfl, h⟩
  · rintro ⟨a, s', hm, hf⟩
    rw [bind_of_ok hm, hf]

theorem wp_pure {a : α} {Q : α → σ → Prop} {s : σ} :
    wp (pure a : Prog σ ε α) Q s ↔ Q a s := by
  constructor
  · rintro ⟨b, s', h, hq⟩
    cases h
    exact hq
  · intro h
    exact ⟨a, s, rfl, h⟩

theorem wp_bind {m : Prog σ ε α} {f : α → Prog σ ε β} {Q : β → σ → Prop} {s : σ} :
    wp (m >>= f) Q s ↔ wp m (fun a s' => wp (f a) Q s') s := by
  constructor
  · rintro ⟨b, s'', h, hq⟩
    obtain ⟨a, s', hm, hf⟩ := bind_eq_ok.1 h
    exact ⟨a, s', hm, b, s'', hf, hq⟩
  · rintro ⟨a, s', hm, b, s'', hf, hq⟩
    exact ⟨b, s'', bind_eq_ok.2 ⟨a, s', hm, hf⟩, hq⟩

theorem wp_mono {m : Prog σ ε α} {P Q : α → σ → Prop} {s : σ} (h : wp m P s)
    (hPQ : ∀ a s', P a s' → Q a s') : wp m Q s := by
  obtain ⟨a, s', hm, hp⟩ := h
  exact ⟨a, s', hm, hPQ a s' hp⟩

theorem wp_of_ok {m : Prog σ ε α} {Q : α → σ → Prop} {s s' : σ} {a : α} (h : m s = .ok (a, s'))
    (hq : Q a s') : wp m Q s :=
  ⟨a, s', h, hq⟩

theorem wp_bind_of_ok {m : Prog σ ε α} {f : α → Prog σ ε β} {Q : β → σ → Prop} {s s' : σ} {a : α}
    (h : m s = .ok (a, s')) : wp (m >>= f) Q s ↔ wp (f a) Q s' := by
  rw [wp, bind_of_ok h]
  rfl

theorem wlp_pure {a : α} {Q : α → σ → Prop} {s : σ} :
    wlp (pure a : Prog σ ε α) Q s ↔ Q a s := by
  constructor
  · intro h
    exact h a s rfl
  · intro h b s' hb
    cases hb
    exact h

theorem wlp_bind {m : Prog σ ε α} {f : α → Prog σ ε β} {Q : β → σ → Prop} {s : σ} :
    wlp (m >>= f) Q s ↔ wlp m (fun a s' => wlp (f a) Q s') s := by
  constructor
  · intro h a s' hm b s'' hf
    exact h b s'' (bind_eq_ok.2 ⟨a, s', hm, hf⟩)
  · intro h b s'' hb
    obtain ⟨a, s', hm, hf⟩ := bind_eq_ok.1 hb
    exact h a s' hm b s'' hf

/-- A return ends in the postcondition, a fault is one of `F`. -/
def upTo (F : ε → Prop) (Q : α → σ → Prop) (m : Prog σ ε α) (s : σ) : Prop :=
  (∀ a s', m s = .ok (a, s') → Q a s') ∧ ∀ x, m s = .error x → F x

theorem upTo_pure {F : ε → Prop} {Q : α → σ → Prop} {a : α} {s : σ} :
    upTo F Q (pure a) s ↔ Q a s := by
  constructor
  · intro h
    exact h.1 a s rfl
  · intro h
    refine ⟨fun b s' hb => ?_, fun x hx => ?_⟩
    · cases hb
      exact h
    · cases hx

theorem upTo_bind {F : ε → Prop} {Q : β → σ → Prop} {m : Prog σ ε α} {f : α → Prog σ ε β}
    {s : σ} (h : upTo F (fun a s' => upTo F Q (f a) s') m s) : upTo F Q (m >>= f) s := by
  rcases hm : m s with x | ⟨a, s'⟩
  · refine ⟨fun b s'' hb => ?_, fun y hy => ?_⟩
    · rw [bind_of_error hm] at hb
      cases hb
    · rw [bind_of_error hm] at hy
      cases hy
      exact h.2 x hm
  · have hf := h.1 a s' hm
    rw [upTo, bind_of_ok hm]
    exact hf

theorem upTo_mono {F G : ε → Prop} {P Q : α → σ → Prop} {m : Prog σ ε α} {s : σ}
    (h : upTo F P m s) (hPQ : ∀ a s', P a s' → Q a s') (hFG : ∀ x, F x → G x) :
    upTo G Q m s :=
  ⟨fun a s' hm => hPQ a s' (h.1 a s' hm), fun x hx => hFG x (h.2 x hx)⟩

/-- What the program returns from `s`, with the final state left out. -/
def result? (m : Prog σ ε α) (s : σ) : Option α := (m s).toOption.map Prod.fst

theorem result?_of_ok {m : Prog σ ε α} {s s' : σ} {a : α} (h : m s = .ok (a, s')) :
    result? m s = some a := by
  rw [result?, h]
  rfl

theorem exists_of_result? {m : Prog σ ε α} {s : σ} {a : α} (h : result? m s = some a) :
    ∃ s', m s = .ok (a, s') := by
  unfold result? at h
  cases hm : m s with
  | error e =>
    rw [hm] at h
    cases h
  | ok r =>
    rw [hm] at h
    cases h
    exact ⟨r.2, rfl⟩

/-- What `f` shows of the result and the final state. -/
def seen? {β : Type} (f : α → σ → β) (m : Prog σ ε α) (s : σ) : Option β :=
  (m s).toOption.map fun r => f r.1 r.2

theorem exists_of_seen? {β : Type} {f : α → σ → β} {m : Prog σ ε α} {s : σ} {b : β}
    (h : seen? f m s = some b) : ∃ a s', m s = .ok (a, s') ∧ f a s' = b := by
  unfold seen? at h
  cases hm : m s with
  | error e =>
    rw [hm] at h
    cases h
  | ok r =>
    rw [hm] at h
    exact ⟨r.1, r.2, rfl, Option.some.inj h⟩

/-- The fault the program stops in, if it does not return. -/
def fault? (m : Prog σ ε α) (s : σ) : Option ε :=
  match m s with
  | .error x => some x
  | .ok _ => none

theorem error_of_fault? {m : Prog σ ε α} {s : σ} {x : ε} (h : fault? m s = some x) :
    m s = .error x := by
  unfold fault? at h
  split at h
  · rename_i y hy
    cases h
    exact hy
  · cases h

/-- Every step the program takes stays within the relation. -/
def Within (R : σ → σ → Prop) (m : Prog σ ε α) : Prop := ∀ s, wlp m (fun _ s' => R s s') s

theorem Within.pure {R : σ → σ → Prop} (hr : ∀ s, R s s) (a : α) :
    Within R (pure a : Prog σ ε α) := by
  intro s
  rw [wlp_pure]
  exact hr s

theorem Within.bind {R : σ → σ → Prop} (ht : ∀ {a b c}, R a b → R b c → R a c)
    {m : Prog σ ε α} {f : α → Prog σ ε β} (hm : Within R m) (hf : ∀ a, Within R (f a)) :
    Within R (m >>= f) := by
  intro s
  rw [wlp_bind]
  intro a s' h b s'' hb
  exact ht (hm s a s' h) (hf a s' b s'' hb)

/-- The program returns, and stays within the relation. -/
def Keeps (R : σ → σ → Prop) (m : Prog σ ε α) : Prop := ∀ s, wp m (fun _ s' => R s s') s

theorem Keeps.pure {R : σ → σ → Prop} (hr : ∀ s, R s s) (a : α) :
    Keeps R (pure a : Prog σ ε α) := by
  intro s
  rw [wp_pure]
  exact hr s

theorem Keeps.bind {R : σ → σ → Prop} (ht : ∀ {a b c}, R a b → R b c → R a c)
    {m : Prog σ ε α} {f : α → Prog σ ε β} (hm : Keeps R m) (hf : ∀ a, Keeps R (f a)) :
    Keeps R (m >>= f) := by
  intro s
  rw [wp_bind]
  refine wp_mono (hm s) fun a s' h => ?_
  exact wp_mono (hf a s') fun b s'' hb => ht h hb

theorem Keeps.within {R : σ → σ → Prop} {m : Prog σ ε α} (h : Keeps R m) : Within R m := by
  intro s a s' hm
  obtain ⟨b, s'', hm', hR⟩ := h s
  rw [hm] at hm'
  cases hm'
  exact hR

theorem Keeps.returns {R : σ → σ → Prop} {m : Prog σ ε α} (h : Keeps R m) (s : σ) :
    Returns m s := by
  obtain ⟨a, s', hm, -⟩ := h s
  exact ⟨(a, s'), hm⟩

end Prog

end Nssf.Base
