import Mathlib.Logic.Function.Iterate

/-!
# 64-bit division

`longops.c`: what the compiler calls for `/` and `%` on `uint64_t`, as the processor divides 32-bit words only.
-/

namespace DeprecatOS

/-- The division by zero that `__udivmoddi4` forces. -/
inductive Trap where
  | divideError
  deriving DecidableEq, Repr

structure LongDiv where
  n : UInt64
  q : UInt64
  r : UInt64
  deriving DecidableEq

def LongDiv.step (d : UInt64) (s : LongDiv) : LongDiv :=
  let r := (s.r <<< 1) ||| (s.n >>> 63)
  let n := s.n <<< 1
  let q := s.q <<< 1
  if d ≤ r then ⟨n, q ||| 1, r - d⟩ else ⟨n, q, r⟩

def LongDiv.after (n d : UInt64) (i : Nat) : LongDiv := (LongDiv.step d)^[i] ⟨n, 0, 0⟩

/-- `__udivmoddi4`. `rem` is what the pointer points at, if it is not null; the quotient is returned with what is
there afterwards. -/
def udivmoddi4 (n d : UInt64) (rem : Option UInt64) : Except Trap (UInt64 × Option UInt64) :=
  if d = 0 then .error .divideError
  else
    let s := LongDiv.after n d 64
    .ok (s.q, rem.map fun _ => s.r)

def udivdi3 (n d : UInt64) : Except Trap UInt64 := do
  let (q, _) ← udivmoddi4 n d none
  pure q

/-- `__umoddi3`. `r` is the local variable before it has a value. -/
def umoddi3 (n d r : UInt64) : Except Trap UInt64 := do
  let (_, rem) ← udivmoddi4 n d (some r)
  pure (rem.getD r)

end DeprecatOS
