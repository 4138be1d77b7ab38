import Mathlib.Data.List.TakeWhile

/-!
# Command lines of the shell (`user/apps/shell/main.c`)

`main` has one array of arguments for all lines. `parse_command` fills as many rows as the line has words and leaves
the others as they are; `run` reads the first row, whatever the number of words is.
-/
namespace Xos.Shell

def maxArgs : Nat := 8

def maxArgLength : Nat := 64

abbrev Text := List Char

/-- The rows of `args`, each up to its terminator. -/
abbrev Args := Nat → Text

/-- The words that `parse_command` finds, with `left` rows to fill. -/
def words : Nat → Text → List Text
  | 0, _ => []
  | left + 1, cmd =>
    let rest := cmd.dropWhile (· = ' ')
    if rest = [] then []
    else (rest.takeWhile (· ≠ ' ')).take (maxArgLength - 1) :: words left (rest.dropWhile (· ≠ ' '))

/-- `parse_command` writes the words into the first rows. -/
def parseCommand (args : Args) (cmd : Text) : Args × Nat :=
  let found := words maxArgs cmd
  (fun i => found[i]?.getD (args i), found.length)

/-- What `run` does; a program is tried again with `.elf` behind its path if there is none. -/
inductive Command where
  | nothing
  | exit
  | time
  | help
  | usage
  | cd (dir : Text)
  | ls (dir : Text)
  | program (path : Text) (argv : List Text)
  deriving DecidableEq, Repr

def run (args : Args) (argCount : Nat) : Command :=
  if args 0 = [] then .nothing
  else if args 0 = "exit".toList then .exit
  else if args 0 = "cd".toList then if argCount < 2 then .usage else .cd (args 1)
  else if args 0 = "time".toList then .time
  else if args 0 = "help".toList then .help
  else if args 0 = "ls".toList then if argCount < 2 then .usage else .ls (args 1)
  else .program ((if (args 0).head? = some '/' then [] else "/sys/programs/".toList) ++ args 0) ((List.range argCount).map args)

structure State where
  args : Args
  currentDir : Text

variable (resolve : Text → Text → Text)

/-- The directory behind a command; `resolve` is what `cmd_cd` computes. -/
def Command.dir (current : Text) : Command → Text
  | .cd arg => resolve current arg
  | _ => current

/-- What `main` does with a line that is in `buf`. -/
def State.line (s : State) (cmd : Text) : Command × State :=
  let parsed := parseCommand s.args cmd
  let command := run parsed.1 parsed.2
  (command, ⟨parsed.1, command.dir resolve s.currentDir⟩)

def State.after (s : State) (history : List Text) : State := history.foldl (fun s cmd => (s.line resolve cmd).2) s

theorem run_agree {args args' : Args} {n : Nat} (some : 0 < n) (agree : ∀ i < n, args i = args' i) : run args n = run args' n := by
  have argv : (List.range n).map args = (List.range n).map args' := List.map_congr_left fun i mem => agree i (List.mem_range.mp mem)
  rw [run, run, agree 0 some, argv]
  by_cases few : n < 2
  · simp only [if_pos few]
  · rw [agree 1 (by omega)]

/-- A line with a word does the same whatever the lines before it left in the array. -/
theorem line_of_word (t t' : State) (cmd : Text) (same : t.currentDir = t'.currentDir) (word : ∃ c ∈ cmd, c ≠ ' ') :
    (t.line resolve cmd).1 = (t'.line resolve cmd).1 ∧
      (t.line resolve cmd).2.currentDir = (t'.line resolve cmd).2.currentDir := by
  have rest : cmd.dropWhile (· = ' ') ≠ [] := by simpa [List.dropWhile_eq_nil_iff] using word
  have some : 0 < (words maxArgs cmd).length := by
    rw [maxArgs, words, if_neg rest]
    exact Nat.succ_pos _
  have command : run (parseCommand t.args cmd).1 _ = run (parseCommand t'.args cmd).1 _ :=
    run_agree some fun i inside => by simp [parseCommand, inside]
  exact ⟨command, congrArg₂ (Command.dir resolve) same command⟩

def start : State := ⟨fun _ => [], ['/']⟩

/-- A line without a word finds the first row as it was. -/
theorem line_of_blank (t : State) {cmd : Text} (blank : ¬∃ c ∈ cmd, c ≠ ' ') : (t.line resolve cmd).1 = run t.args 0 := by
  have nothing : cmd.dropWhile (· = ' ') = [] := by simpa [List.dropWhile_eq_nil_iff] using blank
  have none : words maxArgs cmd = [] := by rw [maxArgs, words, if_pos nothing]
  rw [State.line, parseCommand, none]
  rfl

/-- A line does the same behind all histories exactly if it has a word. -/
theorem line_independent (cmd : Text) :
    (∀ (s s' : State) (h h' : List Text), (s.after resolve h).currentDir = (s'.after resolve h').currentDir →
      ((s.after resolve h).line resolve cmd).1 = ((s'.after resolve h').line resolve cmd).1 ∧
      ((s.after resolve h).line resolve cmd).2.currentDir = ((s'.after resolve h').line resolve cmd).2.currentDir) ↔
    ∃ c ∈ cmd, c ≠ ' ' := by
  constructor
  · intro independent
    by_contra blank
    have same := (independent start start ["help".toList] ["time".toList] rfl).1
    rw [line_of_blank resolve _ blank, line_of_blank resolve _ blank] at same
    cases same
  · intro word s s' h h' same
    exact line_of_word resolve _ _ cmd same word

def stay (dir _ : Text) : Text := dir

/-- A blank line does what the line before it did. -/
theorem blank_line_repeats : (start.after stay ["help".toList]).currentDir = (start.after stay ["time".toList]).currentDir ∧
    ((start.after stay ["help".toList]).line stay []).1 = .help ∧ ((start.after stay ["time".toList]).line stay []).1 = .time := by
  decide

end Xos.Shell
