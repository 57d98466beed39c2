import Termwise.Proofs.Faults
import Termwise.Proofs.Hosts

/-! Calls without effect. A tree of operators and operands gives a number that nobody reads, and all
it does besides is to read properties of the host. When reading changes nothing that later uses of
the host can show, such a tree can be left out of its line. -/
namespace Termwise

variable {σ : Type}

namespace Host

inductive Use where
  | call (name : String) (args : List Float)
  | read (name : String)

namespace Bridge

variable {b : Bridge σ} {h k l : σ}

/-- What a use of the host shows, which is a number or a fault and the function that was called, and
the state after the use. -/
def observe (b : Bridge σ) : Use → σ → (Except Fault Float × List Call) × σ
  | .call name args, host =>
    (((b.call name args host).1.map Reply.value, b.called name args host),
      (b.call name args host).2)
  | .read name, host => (((b.read name host).1.map Reply.value, []), (b.read name host).2)

def transcript (b : Bridge σ) : List Use → σ → List (Except Fault Float × List Call)
  | [], _ => []
  | use :: rest, host => (b.observe use host).1 :: b.transcript rest (b.observe use host).2

/-- No uses of the host tell the two states apart. -/
def Indistinguishable (b : Bridge σ) (h k : σ) : Prop :=
  ∀ uses, b.transcript uses k = b.transcript uses h

theorem Indistinguishable.observe (same : b.Indistinguishable h k) (use : Use) :
    (b.observe use k).1 = (b.observe use h).1 ∧
      b.Indistinguishable (b.observe use h).2 (b.observe use k).2 := by
  constructor
  · have first := same [use]
    simpa [transcript] using first
  · intro uses
    have later := same (use :: uses)
    simp only [transcript, List.cons.injEq] at later
    exact later.2

end Bridge

end Host

namespace Expr

mutual

theorem heads_of_isPure {e : Expr} (plain : e.isPure = true) {t : Term} (member : t ∈ e.heads) :
    t.kind = .function ∧ (Operator.ofName? t.nameText).isSome = true := by
  cases e with
  | operand u => simp [heads] at member
  | call u args =>
    simp only [isPure, Bool.and_eq_true, decide_eq_true_eq] at plain
    rcases List.mem_cons.mp member with rfl | inner
    · exact plain.1
    · exact headsOf_of_allPure plain.2 inner

theorem headsOf_of_allPure {es : List Expr} (plain : allPure es = true) {t : Term}
    (member : t ∈ headsOf es) :
    t.kind = .function ∧ (Operator.ofName? t.nameText).isSome = true := by
  cases es with
  | nil => simp [headsOf] at member
  | cons e rest =>
    simp only [allPure, Bool.and_eq_true] at plain
    rcases List.mem_append.mp member with first | later
    · exact heads_of_isPure plain.1 first
    · exact headsOf_of_allPure plain.2 later

end

end Expr

def Setup.stripPure (setup : Setup σ) : Setup σ :=
  { setup with lines := setup.lines.map Line.stripPure }

namespace Machine

variable {setup : Setup σ} {indent : Option Nat} {settled : Bool}
  {s t : Machine (σ × List Host.Call)}

end Machine

end Termwise
