import OutcomeExchange.Async.Code

set_option autoImplicit false

/-! # Code that publishes what it reads

A call reads part of the world in several operations, and then publishes what it has read.
`Code.Delivers` says that the rest of a call is bound to publish the present state: its next
operation does; or it has begun to read, and what it reads in the present world leads there;
or it leads there whatever the world is by then. A change of what is not read does no harm
(`delivers_congr`); a change of what is read can. -/

namespace Async

variable {I : Interface} {ε α β ω χ : Type} {M : Machine I ε ω χ}

structure Publication (M : Machine I ε ω χ) where
  /-- the conditions under which the operations are answered -/
  Allowed : I.Op → χ → Prop
  /-- the worlds in which they are -/
  Sound : ω → Prop
  /-- the operation reads what is published, or a part of it -/
  Reads : ω → I.Op → Prop
  /-- the operation publishes the present state of the world -/
  Current : ω → I.Op → Prop

namespace Code

variable (B : Publication M)

/-- Whatever its operations answer, the code ends, with a value as `Q` says. -/
def Returns (Q : α → Prop) : Code I ε α → Prop
  | pure a => Q a
  | throw _ => False
  | await op k => ∀ w c, B.Sound w → B.Allowed op c → (k (M.step c w op).1).Returns Q

/-- The code reads `a` from the world `w`. -/
def Yields (w : ω) (a : α) : Code I ε α → Prop
  | pure b => b = a
  | throw _ => False
  | await op k => B.Reads w op ∧ ∀ c, B.Allowed op c → (k (M.step c w op).1).Yields w a

/-- The code is bound to publish what the world `w` holds. -/
def Delivers (w : ω) : Code I ε α → Prop
  | pure _ => False
  | throw _ => False
  | await op k => B.Current w op ∨
      (B.Reads w op ∧ ∀ c, B.Allowed op c → (k (M.step c w op).1).Delivers w) ∨
      ∀ w' c, B.Sound w' → B.Allowed op c → (k (M.step c w' op).1).Delivers w

variable {B} {w w' : ω}

/-! ### Code that ends -/

theorem returns_call {op : I.Op} {Q : I.Answer op → Prop}
    (h : ∀ w c, B.Sound w → B.Allowed op c → ∃ a, (M.step c w op).1 = .ok a ∧ Q a) :
    (call op : Code I ε (I.Answer op)).Returns B Q := by
  intro w c hw hc
  obtain ⟨a, ha, hQ⟩ := h w c hw hc
  rw [ha]
  exact hQ

theorem returns_bind {p : Code I ε α} {f : α → Code I ε β} {Q : α → Prop} {R : β → Prop}
    (hp : p.Returns B Q) (hf : ∀ a, Q a → (f a).Returns B R) : (p >>= f).Returns B R := by
  show (p.bind f).Returns B R
  induction p with
  | pure a => exact hf a hp
  | throw e => exact hp.elim
  | await op k ih => exact fun w c hw hc => ih _ (hp w c hw hc)

theorem returns_attempt {p : Code I ε α} {handler : ε → Code I ε α} {Q : α → Prop}
    (hp : p.Returns B Q) : (p.attempt handler).Returns B Q := by
  induction p with
  | pure a => exact hp
  | throw e => exact hp.elim
  | await op k ih => exact fun w c hw hc => ih _ (hp w c hw hc)

/-! ### Code that reads -/

theorem yields_call {op : I.Op} {a : I.Answer op} (hop : B.Reads w op)
    (h : ∀ c, B.Allowed op c → (M.step c w op).1 = .ok a) :
    (call op : Code I ε (I.Answer op)).Yields B w a := by
  refine ⟨hop, fun c hc => ?_⟩
  rw [h c hc]
  rfl

theorem yields_bind {p : Code I ε α} {f : α → Code I ε β} {a : α} {b : β} (hp : p.Yields B w a)
    (hf : (f a).Yields B w b) : (p >>= f).Yields B w b := by
  show (p.bind f).Yields B w b
  induction p with
  | pure a' =>
      cases hp
      exact hf
  | throw e => exact hp.elim
  | await op k ih => exact ⟨hp.1, fun c hc => ih _ (hp.2 c hc)⟩

/-! ### Code that publishes -/

theorem delivers_call {op : I.Op} (h : B.Current w op) :
    (call op : Code I ε (I.Answer op)).Delivers B w := Or.inl h

theorem delivers_bind {p : Code I ε α} {f : α → Code I ε β} (hp : p.Delivers B w) :
    (p >>= f).Delivers B w := by
  show (p.bind f).Delivers B w
  induction p with
  | pure a => exact hp.elim
  | throw e => exact hp.elim
  | await op k ih =>
      refine hp.imp_right (Or.imp ?_ ?_)
      · exact fun hreads => ⟨hreads.1, fun c hc => ih _ (hreads.2 c hc)⟩
      · exact fun hrest w' c hw' hc => ih _ (hrest w' c hw' hc)

theorem delivers_attempt {p : Code I ε α} {handler : ε → Code I ε α} (hp : p.Delivers B w) :
    (p.attempt handler).Delivers B w := by
  induction p with
  | pure a => exact hp.elim
  | throw e => exact hp.elim
  | await op k ih =>
      refine hp.imp_right (Or.imp ?_ ?_)
      · exact fun hreads => ⟨hreads.1, fun c hc => ih _ (hreads.2 c hc)⟩
      · exact fun hrest w' c hw' hc => ih _ (hrest w' c hw' hc)

theorem delivers_of_returns {p : Code I ε α} {f : α → Code I ε β} {Q : α → Prop}
    (hp : p.Returns B Q) (hf : ∀ a, Q a → (f a).Delivers B w) : (p >>= f).Delivers B w := by
  show (p.bind f).Delivers B w
  induction p with
  | pure a => exact hf a hp
  | throw e => exact hp.elim
  | await op k ih => exact Or.inr (Or.inr fun w' c hw' hc => ih _ (hp w' c hw' hc))

theorem delivers_of_yields {p : Code I ε α} {f : α → Code I ε β} {a : α} (hp : p.Yields B w a)
    (hf : (f a).Delivers B w) : (p >>= f).Delivers B w := by
  show (p.bind f).Delivers B w
  induction p with
  | pure a' =>
      cases hp
      exact hf
  | throw e => exact hp.elim
  | await op k ih => exact Or.inr (Or.inl ⟨hp.1, fun c hc => ih _ (hp.2 c hc)⟩)

/-- **The frame rule**: what is read and published has not changed. -/
theorem delivers_congr {p : Code I ε α} (hcurrent : ∀ op, B.Current w op → B.Current w' op)
    (hreads : ∀ op, B.Reads w op → B.Reads w' op ∧
      ∀ c, B.Allowed op c → (M.step c w' op).1 = (M.step c w op).1)
    (h : p.Delivers B w) : p.Delivers B w' := by
  induction p with
  | pure a => exact h
  | throw e => exact h
  | await op k ih =>
      refine h.imp (hcurrent op) (Or.imp ?_ ?_)
      · intro hread
        obtain ⟨hop, hanswer⟩ := hreads op hread.1
        refine ⟨hop, fun c hc => ?_⟩
        rw [hanswer c hc]
        exact ih _ (hread.2 c hc)
      · exact fun hrest w'' c hw'' hc => ih _ (hrest w'' c hw'' hc)

/-- What is left to publish after a step of the code, if anything is. -/
theorem Delivers.step {op : I.Op} {k : Except ε (I.Answer op) → Code I ε α} {c : χ}
    (h : (await op k).Delivers B w) (hw : B.Sound w) (hc : B.Allowed op c) :
    B.Current w op ∨ (k (M.step c w op).1).Delivers B w := by
  refine h.imp_right fun h => ?_
  rcases h with hreads | hrest
  · exact hreads.2 c hc
  · exact hrest w c hw hc

end Code

end Async
