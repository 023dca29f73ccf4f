import TradingBot.Timestamp

/-!
# Programs that take time

**Log lines** (`LogLine`). A level, a message and named values. A value is either shown bare or, for
text that the value itself is, in quotes (`LogLine.quote`). A log of some level shows that level and
all more severe ones (`LogLevel.admits`).

**The type** (`Program`). A finite tree of actions that ends with a value. A program reads and
writes a world, waits, asks for the time, requests that the bot stop, and writes log lines.
Between two waits nothing else happens, so what a program does there is one step.

**Running.** `Program.resume` carries a program on to its end or to its next wait. `Program.run`
carries it to its end at one point in time and tells the value and the world.

**Parts of a world** (`Program.Slot`). A program over a part of a world is one over the whole
(`Program.zoom`).
-/

namespace TradingBot

/-! ## Log lines -/

inductive LogLevel where
  | trace
  | debug
  | info
  | warn
  | error
deriving DecidableEq, Repr

namespace LogLevel

def severity : LogLevel → Nat
  | trace => 0
  | debug => 1
  | info => 2
  | warn => 3
  | error => 4

def name : LogLevel → String
  | trace => "TRACE"
  | debug => "DEBUG"
  | info => "INFO"
  | warn => "WARN"
  | error => "ERROR"

/-- Whether a log of this level shows lines of the other. -/
def admits (threshold line : LogLevel) : Bool := threshold.severity ≤ line.severity

/-- The level of a name in any case; an unknown name means `info`. -/
def ofName (s : String) : LogLevel :=
  match s.toLower with
  | "trace" => trace
  | "debug" => debug
  | "warn" => warn
  | "error" => error
  | _ => info

end LogLevel

structure LogLine where
  level : LogLevel
  message : String
  fields : List (String × String) := []
deriving DecidableEq, Repr

namespace LogLine

/-- A character inside quotes. -/
def escape (c : Char) : List Char :=
  if c = '"' then ['\\', '"']
  else if c = '\\' then ['\\', '\\']
  else if c = '\n' then ['\\', 'n']
  else if c = '\r' then ['\\', 'r']
  else if c = '\t' then ['\\', 't']
  else [c]

def quote (s : String) : String := String.ofList ('"' :: s.toList.flatMap escape ++ ['"'])

def render (l : LogLine) : String :=
  " ".intercalate (l.level.name :: l.message :: l.fields.map fun (key, v) => s!"{key}={v}")

end LogLine

/-! ## Programs -/

/-- Actions over a world `ω` that end with a value in `α`. -/
inductive Program (ω α : Type) where
  | done (a : α)
  | read (next : ω → Program ω α)
  | write (w : ω) (next : Program ω α)
  /-- Lets so many milliseconds pass. -/
  | wait (ms : Nat) (next : Program ω α)
  | clock (next : Timestamp → Program ω α)
  | requestStop (next : Program ω α)
  | log (line : LogLine) (next : Program ω α)

namespace Program

variable {ω σ α β : Type}

def bind : Program ω α → (α → Program ω β) → Program ω β
  | done a, f => f a
  | read next, f => read fun w => (next w).bind f
  | write w next, f => write w (next.bind f)
  | wait ms next, f => wait ms (next.bind f)
  | clock next, f => clock fun t => (next t).bind f
  | requestStop next, f => requestStop (next.bind f)
  | log line next, f => log line (next.bind f)

instance : Monad (Program ω) where
  pure := done
  bind := bind

theorem bind_done (p : Program ω α) : p.bind done = p := by
  induction p with
  | done a => rfl
  | read next ih => simp only [bind]; congr; funext w; exact ih w
  | write w next ih => simp only [bind, ih]
  | wait ms next ih => simp only [bind, ih]
  | clock next ih => simp only [bind]; congr; funext t; exact ih t
  | requestStop next ih => simp only [bind, ih]
  | log line next ih => simp only [bind, ih]

theorem bind_assoc {γ : Type} (p : Program ω α) (f : α → Program ω β) (g : β → Program ω γ) :
    (p.bind f).bind g = p.bind fun a => (f a).bind g := by
  induction p with
  | done a => rfl
  | read next ih => simp only [bind]; congr; funext w; exact ih w
  | write w next ih => simp only [bind, ih]
  | wait ms next ih => simp only [bind, ih]
  | clock next ih => simp only [bind]; congr; funext t; exact ih t
  | requestStop next ih => simp only [bind, ih]
  | log line next ih => simp only [bind, ih]

instance : LawfulMonad (Program ω) :=
  LawfulMonad.mk' (Program ω) (fun p => bind_done p) (fun _ _ => rfl)
    (fun p f g => bind_assoc p f g)

/-! ## Single actions -/

def get : Program ω ω := read done

/-- Changes the world and gives a value that depends on it. -/
def modifyGet (f : ω → α × ω) : Program ω α := read fun w => write (f w).2 (done (f w).1)

def modify (f : ω → ω) : Program ω Unit := modifyGet fun w => ((), f w)

def pause (ms : Nat) : Program ω Unit := wait ms (done ())

def now : Program ω Timestamp := clock done

def stop : Program ω Unit := requestStop (done ())

def tell (level : LogLevel) (message : String) (fields : List (String × String) := []) :
    Program ω Unit :=
  log { level, message, fields } (done ())

/-! ## Running -/

/-- What a step of a program leaves: its value, or the wait that it has come to. -/
structure Turn (ω α : Type) where
  rest : α ⊕ Nat × Program ω α
  world : ω
  /-- Whether it requested a stop. -/
  stop : Bool := false
  lines : List LogLine := []

/-- Carries a program on to its end or to its next wait of some length. -/
def resume (now : Timestamp) : Program ω α → ω → Turn ω α
  | done a, w => { rest := .inl a, world := w }
  | read next, w => (next w).resume now w
  | write w next, _ => next.resume now w
  | wait 0 next, w => next.resume now w
  | wait (ms + 1) next, w => { rest := .inr (ms + 1, next), world := w }
  | clock next, w => (next now).resume now w
  | requestStop next, w => { next.resume now w with stop := true }
  | log line next, w =>
    let turn := next.resume now w
    { turn with lines := line :: turn.lines }

/-- Carries a program to its end as if all happened at one point in time. -/
def run (now : Timestamp) : Program ω α → ω → α × ω
  | done a, w => (a, w)
  | read next, w => (next w).run now w
  | write w next, _ => next.run now w
  | wait _ next, w => next.run now w
  | clock next, w => (next now).run now w
  | requestStop next, w => next.run now w
  | log _ next, w => next.run now w

@[simp] theorem run_pure (now : Timestamp) (a : α) (w : ω) :
    (pure a : Program ω α).run now w = (a, w) := rfl

@[simp] theorem run_bind (now : Timestamp) (p : Program ω α) (f : α → Program ω β) (w : ω) :
    (p >>= f).run now w = (f (p.run now w).1).run now (p.run now w).2 := by
  show (p.bind f).run now w = _
  induction p generalizing w with
  | done a => rfl
  | read next ih => exact ih w w
  | write w' next ih => exact ih w'
  | wait ms next ih => exact ih w
  | clock next ih => exact ih now w
  | requestStop next ih => exact ih w
  | log line next ih => exact ih w

@[simp] theorem run_get (now : Timestamp) (w : ω) : (get : Program ω ω).run now w = (w, w) := rfl

@[simp] theorem run_modifyGet (now : Timestamp) (f : ω → α × ω) (w : ω) :
    (modifyGet f).run now w = f w := rfl

@[simp] theorem run_tell (now : Timestamp) (level : LogLevel) (message : String)
    (fields : List (String × String)) (w : ω) :
    (tell level message fields).run now w = ((), w) := rfl

/-! ## Parts of a world -/

/-- A part of a world that can be read and replaced on its own. -/
structure Slot (ω σ : Type) where
  get : ω → σ
  set : σ → ω → ω
  get_set : ∀ s w, get (set s w) = s := by intros; rfl
  set_set : ∀ s s' w, set s (set s' w) = set s w := by intros; rfl
  set_get : ∀ w, set (get w) w = w := by intros; rfl

def zoom (slot : Slot ω σ) : Program σ α → Program ω α
  | done a => done a
  | read next => read fun w => (next (slot.get w)).zoom slot
  | write s next => read fun w => write (slot.set s w) (next.zoom slot)
  | wait ms next => wait ms (next.zoom slot)
  | clock next => clock fun t => (next t).zoom slot
  | requestStop next => requestStop (next.zoom slot)
  | log line next => log line (next.zoom slot)

theorem run_zoom (slot : Slot ω σ) (now : Timestamp) (p : Program σ α) (w : ω) :
    (p.zoom slot).run now w =
      ((p.run now (slot.get w)).1, slot.set (p.run now (slot.get w)).2 w) := by
  induction p generalizing w with
  | done a => simp [zoom, run, slot.set_get]
  | read next ih => exact ih _ w
  | write s next ih => simp [zoom, run, ih, slot.get_set, slot.set_set]
  | wait ms next ih => exact ih w
  | clock next ih => exact ih now w
  | requestStop next ih => exact ih w
  | log line next ih => exact ih w

end Program

end TradingBot
