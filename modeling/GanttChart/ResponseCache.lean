/-! A cache that forgets. Every value is kept for a fixed time; whatever has expired is swept away
before each insertion and each lookup. Times are given from outside and need not increase. They are
counted from the first one that the clock can show, and end with the last one. -/

namespace GanttChart

/-- A value that is kept until a time. -/
structure Kept (α : Type) where
  key : String
  value : α
  /-- The first time at which the value is gone. -/
  expiry : Nat

structure ResponseCache (α : Type) where
  /-- For how long values are kept. -/
  ttl : Nat
  /-- The last time that the clock can show. -/
  horizon : Nat
  entries : List (Kept α)

namespace ResponseCache

variable {α : Type}

/-- Five minutes, in milliseconds. -/
def standardTtl : Nat := 300000

/-- The last millisecond of a clock whose seconds are a signed number of 64 bits. -/
def lastMillisecond : Nat := 9223372036854775807999

def emptyUntil (horizon ttl : Nat) : ResponseCache α := ⟨ttl, horizon, []⟩

def empty (ttl : Nat) : ResponseCache α := .emptyUntil lastMillisecond ttl

/-- How many values are held, expired ones that have not been swept away yet among them. -/
def size (c : ResponseCache α) : Nat := c.entries.length

def isEmpty (c : ResponseCache α) : Bool := c.entries.isEmpty

def sweep (c : ResponseCache α) (now : Nat) : ResponseCache α :=
  { c with entries := c.entries.filter fun e => now < e.expiry }

/-- The first time at which a value is gone that is inserted now; none if the clock cannot show that
time. -/
def expiry? (c : ResponseCache α) (now : Nat) : Option Nat :=
  if now + c.ttl ≤ c.horizon then some (now + c.ttl) else none

/-- The cache with a value under a key, in place of an earlier one. Without an expiry the insertion
panics: the cache has been swept by then, but nothing is put in or replaced. -/
def insert (c : ResponseCache α) (key : String) (value : α) (now : Nat) : ResponseCache α :=
  let swept := c.sweep now
  { swept with
    entries :=
      match c.expiry? now with
      | some expiry => ⟨key, value, expiry⟩ :: swept.entries.filter fun e => e.key != key
      | none => swept.entries }

def held? (c : ResponseCache α) (key : String) : Option α :=
  (c.entries.find? fun e => e.key == key).map Kept.value

/-- The value under a key, and the cache after the lookup. -/
def get (c : ResponseCache α) (key : String) (now : Nat) : Option α × ResponseCache α :=
  let swept := c.sweep now
  (swept.held? key, swept)

theorem expiry?_eq_some {c : ResponseCache α} {now t : Nat} :
    c.expiry? now = some t ↔ t = now + c.ttl ∧ t ≤ c.horizon := by
  grind [expiry?]

theorem expiry?_eq_none {c : ResponseCache α} {now : Nat} :
    c.expiry? now = none ↔ c.horizon < now + c.ttl := by
  grind [expiry?]

theorem entries_insert_of_expiry {c : ResponseCache α} {key : String} {value : α} {now t : Nat}
    (h : c.expiry? now = some t) : (c.insert key value now).entries =
      ⟨key, value, t⟩ :: (c.sweep now).entries.filter fun e => e.key != key := by
  simp [insert, h]

theorem entries_insert_of_panic {c : ResponseCache α} {key : String} {value : α} {now : Nat}
    (h : c.expiry? now = none) : (c.insert key value now).entries = (c.sweep now).entries := by
  simp [insert, h]

theorem mem_sweep {c : ResponseCache α} {now : Nat} {e : Kept α} :
    e ∈ (c.sweep now).entries ↔ e ∈ c.entries ∧ now < e.expiry := by
  simp [sweep]

end ResponseCache

end GanttChart
