import VivaGenicam.Library.Buffer

/-!
Machine arithmetic, of 64 bits unless said otherwise, and slicing that fail
where a program would panic: on overflow, on a subtraction below zero, on a
division by zero, on a range outside the buffer. A model
computed with these and one computed with unbounded numbers agree wherever
this one does not fail.
-/

namespace Library.Checked

variable {α : Type*}

def add (a b : Nat) : Option Nat := if a + b < 2 ^ 64 then some (a + b) else none

def mul (a b : Nat) : Option Nat := if a * b < 2 ^ 64 then some (a * b) else none

def sub (a b : Nat) : Option Nat := if b ≤ a then some (a - b) else none

def div (a b : Nat) : Option Nat := if b = 0 then none else some (a / b)

/-- The product, on 32 bits. -/
def mul32 (a b : Nat) : Option Nat := if a * b < 2 ^ 32 then some (a * b) else none

/-- The range `start .. start + count` of the buffer. -/
def slice (buffer : List α) (start count : Nat) : Option (List α) :=
  if start + count ≤ buffer.length then some ((buffer.drop start).take count) else none

/-- Copy `data` over the range `start .. stop` of the buffer. -/
def overwrite (buffer : List α) (start stop : Nat) (data : List α) : Option (List α) :=
  if start ≤ stop ∧ stop ≤ buffer.length ∧ data.length = stop - start then
    some (Buffer.write buffer start data)
  else
    none

variable {a b : Nat}

theorem add_eq (h : a + b < 2 ^ 64) : add a b = some (a + b) := if_pos h

theorem mul_eq (h : a * b < 2 ^ 64) : mul a b = some (a * b) := if_pos h

theorem sub_eq (h : b ≤ a) : sub a b = some (a - b) := if_pos h

theorem div_eq (h : 0 < b) : div a b = some (a / b) := if_neg (by omega)

theorem mul32_eq (h : a * b < 2 ^ 32) : mul32 a b = some (a * b) := if_pos h

theorem mul_eq_none (h : 2 ^ 64 ≤ a * b) : mul a b = none := if_neg (by omega)

theorem add_eq_none (h : 2 ^ 64 ≤ a + b) : add a b = none := if_neg (by omega)

theorem slice_eq {buffer : List α} {start count : Nat} (h : start + count ≤ buffer.length) :
    slice buffer start count = some ((buffer.drop start).take count) := if_pos h

theorem overwrite_eq {buffer : List α} {start stop : Nat} {data : List α} (hstart : start ≤ stop)
    (hstop : stop ≤ buffer.length) (hdata : data.length = stop - start) :
    overwrite buffer start stop data = some (Buffer.write buffer start data) :=
  if_pos ⟨hstart, hstop, hdata⟩

end Library.Checked
