import Backtrack.Expr.Inspect
import Backtrack.Proofs.Text.Quoted

/-!
# The structure of an expression as text

The text that shows the structure of an expression shows nothing else: no two expressions have the
same. Names are quoted and constants are followed by a parenthesis, so that the text of each part
ends where it can be seen, and the first letter of a text tells the constructor. The statement that
goes through the parts is `selfDelimiting_inspect`, and `inspect_inj` is what it comes to.
-/

namespace Backtrack.Expr

open Text

/-! ### The text of each constructor -/

/-- The structure of a name quotes the name. -/
theorem inspect_var (x : String) : inspect (var x) = "Var(" ++ quoted x ++ ")" := by
  apply String.toList_inj.mp
  simp [inspect, inspectOnto, inspectOpen, quoted]

/-- The structure of a constant has the numeral of the constant. -/
theorem inspect_const (k : Int) :
    inspect (const k) = "Const(" ++ String.ofList (Numeral.ofInt k) ++ ")" := by
  apply String.toList_inj.mp
  simp [inspect, inspectOnto, inspectOpen]

/-- The structure of a sum has the structures of both operands. -/
theorem inspect_add (a b : Expr) :
    inspect (add a b) = "Add(" ++ inspect a ++ ", " ++ inspect b ++ ")" := by
  apply String.toList_inj.mp
  simp only [inspect, inspectOnto, inspectOnto_eq a 1, inspectOnto_eq b 0 [')'], inspectOpen,
    String.toList_ofList, String.toList_append]
  simp

/-- The structure of a local definition has the quoted name and the structures of both parts. -/
theorem inspect_letIn (x : String) (e b : Expr) :
    inspect (letIn x e b) =
      "Let(" ++ quoted x ++ ", " ++ inspect e ++ ", " ++ inspect b ++ ")" := by
  apply String.toList_inj.mp
  simp only [inspect, inspectOnto, inspectOnto_eq e 0 (_ :: _), inspectOnto_eq b 0 [')'],
    inspectOpen, quoted, String.toList_ofList, String.toList_append]
  simp

/-! ### What the text tells -/

/-- The structure of an expression determines the expression and its own end, whatever text
follows. -/
theorem selfDelimiting_inspect : SelfDelimiting fun e : Expr ↦ (inspect e).toList := by
  intro e
  -- In each case the other expression has the same constructor, as the first letters are different.
  induction e with
  | var x =>
    intro e' r s h
    cases e' with
    | var x' =>
      have hx : Quoted.encode x.toList ++ ')' :: r = Quoted.encode x'.toList ++ ')' :: s := by
        simpa [inspect_var, quoted] using h
      obtain ⟨hname, hrest⟩ := Quoted.selfDelimiting_encode _ _ _ _ hx
      exact ⟨congrArg var (String.toList_inj.mp hname), (List.cons.inj hrest).2⟩
    | _ => simp [inspect_var, inspect_const, inspect_add, inspect_letIn] at h
  | const k =>
    intro e' r s h
    cases e' with
    | const k' =>
      have hk : (Numeral.ofInt k ++ [')']) ++ r = (Numeral.ofInt k' ++ [')']) ++ s := by
        simpa [inspect_const] using h
      have hparen : ')'.isDigit = false := by decide
      obtain ⟨rfl, hrest⟩ := Numeral.selfDelimiting_ofInt hparen k k' r s hk
      exact ⟨rfl, hrest⟩
    | _ => simp [inspect_var, inspect_const, inspect_add, inspect_letIn] at h
  | add a b iha ihb =>
    intro e' r s h
    cases e' with
    | add a' b' =>
      have hab : (inspect a).toList ++ ',' :: ' ' :: ((inspect b).toList ++ ')' :: r) =
          (inspect a').toList ++ ',' :: ' ' :: ((inspect b').toList ++ ')' :: s) := by
        simpa [inspect_add] using h
      obtain ⟨rfl, hafter⟩ := iha _ _ _ hab
      obtain ⟨rfl, hrest⟩ := ihb _ _ _ (List.cons.inj (List.cons.inj hafter).2).2
      exact ⟨rfl, (List.cons.inj hrest).2⟩
    | _ => simp [inspect_var, inspect_const, inspect_add, inspect_letIn] at h
  | letIn x e b ihe ihb =>
    intro e' r s h
    cases e' with
    | letIn x' e' b' =>
      have hxeb : Quoted.encode x.toList ++ ',' :: ' ' ::
            ((inspect e).toList ++ ',' :: ' ' :: ((inspect b).toList ++ ')' :: r)) =
          Quoted.encode x'.toList ++ ',' :: ' ' ::
            ((inspect e').toList ++ ',' :: ' ' :: ((inspect b').toList ++ ')' :: s)) := by
        simpa [inspect_letIn, quoted] using h
      obtain ⟨hname, hparts⟩ := Quoted.selfDelimiting_encode _ _ _ _ hxeb
      obtain ⟨rfl, hafter⟩ := ihe _ _ _ (List.cons.inj (List.cons.inj hparts).2).2
      obtain ⟨rfl, hrest⟩ := ihb _ _ _ (List.cons.inj (List.cons.inj hafter).2).2
      obtain rfl := String.toList_inj.mp hname
      exact ⟨rfl, (List.cons.inj hrest).2⟩
    | _ => simp [inspect_var, inspect_const, inspect_add, inspect_letIn] at h

/-- Expressions are the same if and only if the texts are that show their structure, whatever
characters their names are made of and whatever integers their constants are. -/
theorem inspect_inj (e e' : Expr) : e.inspect = e'.inspect ↔ e = e' := by
  constructor
  · intro h
    have happend : e.inspect.toList ++ [] = e'.inspect.toList ++ [] := by rw [h]
    exact (selfDelimiting_inspect e e' [] [] happend).1
  · intro h
    rw [h]

end Backtrack.Expr
