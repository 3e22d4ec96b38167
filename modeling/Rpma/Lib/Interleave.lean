import Rpma.Lib.Prog
import Mathlib.Logic.Relation

/-!
# Programs in a world that moves between their calls

The world is a state `w : W` here. It answers a call (`answers w c r w'`), and between two calls of
the program it may move on its own (`env w w'`), any number of times.

* `Safe Q p w`: from `w` the program `p` ends in `Q`, wherever the world moves, and `Q` still holds
  however long the world moves on after the end. `Safe.step`: a step of the program or of the world
  keeps it.
* `Under A m B` is the triple of this setting, between assertions that the moves of the world keep.
-/

namespace Rpma.Lib

open Relation

section

variable {C : Type} {R : C → Type} {W α β : Type} (answers : W → (c : C) → R c → W → Prop)
  (env : W → W → Prop)

/-- A step of a program: a call, or a move of the world. -/
inductive Step : W × Prog C R α → W × Prog C R α → Prop
  | move {w w' : W} {p : Prog C R α} (h : env w w') : Step (w, p) (w', p)
  | call {w w' : W} {c : C} {k : R c → Prog C R α} {r : R c} (h : answers w c r w') :
      Step (w, .call c k) (w', k r)

/-- Wherever the world moves, the program ends in `Q`. -/
def Safe (Q : α → W → Prop) : Prog C R α → W → Prop
  | .pure a, w => ∀ w', ReflTransGen env w w' → Q a w'
  | .call c k, w => ∀ w', ReflTransGen env w w' → ∀ r w'', answers w' c r w'' → Safe Q (k r) w''

variable {answers env} {Q : α → W → Prop}

theorem Safe.moved {p : Prog C R α} {w w' : W} (h : Safe answers env Q p w) (hw : env w w') :
    Safe answers env Q p w' := by
  cases p with
  | pure a => exact fun w'' hw'' => h w'' (ReflTransGen.head hw hw'')
  | call c k => exact fun w'' hw'' => h w'' (ReflTransGen.head hw hw'')

theorem Safe.step {p p' : Prog C R α} {w w' : W} (hstep : Step answers env (w, p) (w', p'))
    (h : Safe answers env Q p w) : Safe answers env Q p' w' := by
  cases hstep with
  | move hw => exact h.moved hw
  | call hr => exact h _ .refl _ _ hr

theorem Safe.bind {m : Prog C R β} {f : β → Prog C R α} {w : W}
    (h : Safe answers env (fun b w => Safe answers env Q (f b) w) m w) :
    Safe answers env Q (m >>= f) w := by
  induction m generalizing w with
  | pure b => exact h w .refl
  | call c k ih => exact fun w' hw r w'' hr => ih r (h w' hw r w'' hr)

/-! ## Triples between stable assertions -/

variable (env) in
/-- The moves of the world keep `A`. -/
def Unmoved (A : W → Prop) : Prop := ∀ w w', env w w' → A w → A w'

theorem Unmoved.and_pure {A : W → Prop} (hA : Unmoved env A) (φ : Prop) :
    Unmoved env fun w => A w ∧ φ := fun w w' hw h => ⟨hA w w' hw h.1, h.2⟩

theorem Unmoved.star {A : W → Prop} (hA : Unmoved env A) {w w' : W} (hw : ReflTransGen env w w')
    (h : A w) : A w' := by
  induction hw with
  | refl => exact h
  | tail _ hstep ih => exact hA _ _ hstep ih

variable (answers env) in
/-- From `A` the program ends in `B`. -/
def Under (A : W → Prop) (m : Prog C R α) (B : α → W → Prop) : Prop :=
  ∀ w, A w → Safe answers env B m w

variable {A : W → Prop}

theorem Under.pure {a : α} {B : α → W → Prop} (hA : Unmoved env A) (h : ∀ w, A w → B a w) :
    Under answers env A (Pure.pure a : Prog C R α) B := fun _ hw w' hstar => h w' (hA.star hstar hw)

theorem Under.issue {c : C} {B : R c → W → Prop} (hA : Unmoved env A)
    (hB : ∀ r, Unmoved env (B r)) (h : ∀ w r w', A w → answers w c r w' → B r w') :
    Under answers env A (Prog.issue c) B := fun _ hw w' hstar r w'' hr _ hstar' =>
  (hB r).star hstar' (h w' r w'' (hA.star hstar hw) hr)

theorem Under.bind {m : Prog C R β} {f : β → Prog C R α} {B : β → W → Prop}
    (hm : Under answers env A m B) (hf : ∀ b, Under answers env (B b) (f b) Q) :
    Under answers env A (m >>= f) Q := by
  intro w hw
  have hmono : ∀ (p : Prog C R β) w, Safe answers env B p w →
      Safe answers env (fun b w => Safe answers env Q (f b) w) p w := by
    intro p
    induction p with
    | pure b => exact fun w h w' hw' => hf b w' (h w' hw')
    | call c k ih => exact fun w h w' hw' r w'' hr => ih r w'' (h w' hw' r w'' hr)
  exact (hmono m w (hm w hw)).bind

/-- A fact about values in the precondition is a hypothesis. -/
theorem Under.and_pure {m : Prog C R α} {φ : Prop} (h : φ → Under answers env A m Q) :
    Under answers env (fun w => A w ∧ φ) m Q := fun w hw => h hw.2 w hw.1

theorem Under.conseq {m : Prog C R α} {A' : W → Prop} {B B' : α → W → Prop}
    (hm : Under answers env A m B) (ha : ∀ w, A' w → A w) (hb : ∀ a w, B a w → B' a w) :
    Under answers env A' m B' := by
  intro w hw
  have hmono : ∀ (p : Prog C R α) w, Safe answers env B p w → Safe answers env B' p w := by
    intro p
    induction p with
    | pure a => exact fun w h w' hw' => hb a w' (h w' hw')
    | call c k ih => exact fun w h w' hw' r w'' hr => ih r w'' (h w' hw' r w'' hr)
  exact hmono m w (hm w (ha w hw))

end

end Rpma.Lib
