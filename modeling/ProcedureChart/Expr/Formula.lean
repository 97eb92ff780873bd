import ProcedureChart.Expr.Parser

/-!
# Formulas

A formula is an expression as it was written, together with what it reads as. Reading is done once,
however often the formula is evaluated; the text determines the rest (`Formula.ext`), so formulas
are compared and stored as their texts. `evaluate` is the two steps at once for a bare text.
-/

namespace ProcedureChart

namespace Expr

/-- What a source reads as: an expression, or as much of one as stands before its fault. -/
def read (source : String) : Except Fragment Expr :=
  match tokenize source with
  | .error error => .error (.fault error)
  | .ok ts => parse source.utf8ByteSize ts

/-- The value, in a context, of what a source reads as. -/
def run (reading : Except Fragment Expr) (c : Context) : Except EvalError Value :=
  match reading with
  | .ok e => e.eval c
  | .error fragment => .error (fragment.error c)

/-- The value of a source in a context. -/
def evaluate (source : String) (c : Context) : Except EvalError Value := run (read source) c

end Expr

/-- An expression as written, and what it reads as. -/
structure Formula where
  source : String
  reading : Except Expr.Fragment Expr
  reading_eq : reading = Expr.read source

namespace Formula

/-- The formula of a source. -/
def ofSource (source : String) : Formula := ⟨source, Expr.read source, rfl⟩

/-- The value of a formula in a context. -/
def eval (f : Formula) (c : Context) : Except Expr.EvalError Value := Expr.run f.reading c

/-- The truth value of a formula in a context. -/
def test (f : Formula) (c : Context) : Except Expr.EvalError Bool := (f.eval c).map Value.truthy

/-- Whether a formula has a value in a context, and a true one. -/
def holds (f : Formula) (c : Context) : Bool :=
  match f.eval c with
  | .ok v => v.truthy
  | .error _ => false

/-- The source determines the formula. -/
theorem ext {f g : Formula} (h : f.source = g.source) : f = g := by
  cases f with
  | mk s r hr =>
    cases g with
    | mk s' r' hr' =>
      cases h
      cases hr
      cases hr'
      rfl

@[simp] theorem source_ofSource (s : String) : (ofSource s).source = s := rfl

@[simp] theorem ofSource_source (f : Formula) : ofSource f.source = f := ext rfl

/-- Evaluating a formula is evaluating its source. -/
theorem eval_eq (f : Formula) (c : Context) : f.eval c = Expr.evaluate f.source c := by
  rw [eval, f.reading_eq, Expr.evaluate]

instance : DecidableEq Formula := fun f g =>
  if h : f.source = g.source then .isTrue (ext h) else .isFalse fun heq => h (heq ▸ rfl)

instance : Repr Formula := ⟨fun f => reprPrec f.source⟩

instance : Inhabited Formula := ⟨ofSource ""⟩

end Formula

end ProcedureChart
