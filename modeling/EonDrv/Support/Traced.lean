/-!
# Computations with a trace

A computation that returns a value and the list of the events it caused.
-/

universe u v w

structure Traced (ε : Type u) (α : Type v) where
  val : α
  trace : List ε

namespace Traced

variable {ε : Type u} {α β : Type v}

instance : Monad (Traced ε) where
  pure a := ⟨a, []⟩
  bind m f := ⟨(f m.val).val, m.trace ++ (f m.val).trace⟩

def emit (e : ε) : Traced ε PUnit := ⟨⟨⟩, [e]⟩

def emitAll (es : List ε) : Traced ε PUnit := ⟨⟨⟩, es⟩

/-- The same computation, its events read as events of another kind. -/
def mapTrace {ε' : Type w} (f : ε → ε') (m : Traced ε α) : Traced ε' α :=
  ⟨m.val, m.trace.map f⟩

@[simp] theorem val_pure (a : α) : (pure a : Traced ε α).val = a := rfl

@[simp] theorem trace_pure (a : α) : (pure a : Traced ε α).trace = [] := rfl

@[simp] theorem val_bind (m : Traced ε α) (f : α → Traced ε β) :
    (m >>= f).val = (f m.val).val := rfl

@[simp] theorem trace_bind (m : Traced ε α) (f : α → Traced ε β) :
    (m >>= f).trace = m.trace ++ (f m.val).trace := rfl

@[simp] theorem trace_emit (e : ε) : (emit e : Traced ε PUnit).trace = [e] := rfl

@[simp] theorem trace_emitAll (es : List ε) : (emitAll es : Traced ε PUnit).trace = es := rfl

@[simp] theorem val_mapTrace {ε' : Type w} (f : ε → ε') (m : Traced ε α) :
    (m.mapTrace f).val = m.val := rfl

@[simp] theorem trace_mapTrace {ε' : Type w} (f : ε → ε') (m : Traced ε α) :
    (m.mapTrace f).trace = m.trace.map f := rfl

end Traced
