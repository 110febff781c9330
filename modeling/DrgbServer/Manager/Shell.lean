import DrgbServer.Manager.Commands

/-! # A session with the manager

`main` queues the words of its arguments and then those of each line it reads, and `Process`
takes commands off the queue until it is empty or an exception leaves the rest of it for the
next line. -/
namespace DrgbServer.Manager
open DrgbServer.Utils DrgbServer.Lib.Transition
open DrgbServer.Utils.ConfigParser (Line isBlank)
open DrgbServer.Redis (stoull)

/-! ## The words of a line -/

/-- `find_first_of`, as an `int`; `npos` is none. -/
def splitPos (input : Line) : Option Int :=
  match input.findIdx? isBlank with
  | none => none
  | some pos => if toInt pos = -1 then none else some (toInt pos)

/-- A count of characters from an `int`, which is huge when it is negative. -/
def count (input : Line) (n : Int) : Nat := if 0 ≤ n then n.toNat else input.length

/-- The loop that cuts the input at the blanks, with what is left at its end. -/
def cut : Nat → Line → List Line
  | 0, _ => []
  | fuel + 1, input =>
    match splitPos input with
    | none => if input.length > 0 then [input] else []
    | some pos =>
      let split := input.take (count input pos)
      let rest := cut fuel (input.drop (count input (pos + 1)))
      if split.length > 0 then split :: rest else rest

def words (input : Line) : List Line := cut (input.length + 1) input

/-- The pieces between the blanks that are not empty. -/
def pieces (input : Line) : List Line := (input.splitOnP isBlank).filter fun word => word ≠ []

theorem pieces_cut {front rest : Line} {c : Char} (hfront : ∀ c ∈ front, isBlank c = false)
    (hc : isBlank c = true) : pieces (front ++ c :: rest) =
      if front.length > 0 then front :: pieces rest else pieces rest := by
  rw [pieces, List.splitOnP_append_cons_of_forall_mem hfront _ hc, List.filter_cons]
  cases front with
  | nil => simp [pieces]
  | cons d front => simp [pieces]

theorem splitPos_of_findIdx {input : Line} {pos : Nat} (hpos : input.findIdx? isBlank = some pos)
    (hs : pos < 2 ^ 31) : splitPos input = some (pos : Int) := by
  rw [splitPos, hpos]
  simp only [toInt_of_lt hs]
  rw [if_neg (by omega)]

theorem cut_eq_pieces {fuel : Nat} {input : Line} (hf : input.length < fuel)
    (hs : input.length < 2 ^ 31) : cut fuel input = pieces input := by
  induction fuel generalizing input with
  | zero => exact absurd hf (Nat.not_lt_zero _)
  | succ fuel ih =>
    rw [cut]
    cases hpos : input.findIdx? isBlank with
    | none =>
      have hno : ∀ c ∈ input, isBlank c = false := List.findIdx?_eq_none_iff.mp hpos
      rw [splitPos, hpos, pieces, List.splitOnP_eq_singleton hno]
      cases input with
      | nil => rfl
      | cons c rest => rfl
    | some pos =>
      obtain ⟨hlt, hblank, hbefore⟩ := List.findIdx?_eq_some_iff_getElem.mp hpos
      have hno : ∀ c ∈ input.take pos, isBlank c = false := by
        intro c hc
        obtain ⟨i, hi, rfl⟩ := List.mem_iff_getElem.mp hc
        rw [List.length_take] at hi
        rw [List.getElem_take]
        simpa using hbefore i (by omega)
      have hrest : cut fuel (input.drop (pos + 1)) = pieces (input.drop (pos + 1)) := by
        apply ih
        · rw [List.length_drop]
          omega
        · rw [List.length_drop]
          omega
      have hsplit : input = input.take pos ++ input[pos] :: input.drop (pos + 1) := by
        rw [List.getElem_cons_drop, List.take_append_drop]
      have hcount : count input (pos : Int) = pos := by simp [count]
      have hcount' : count input ((pos : Int) + 1) = pos + 1 := by
        rw [count, if_pos (by omega)]
        omega
      rw [splitPos_of_findIdx hpos (by omega)]
      simp only [hcount, hcount', hrest]
      conv_rhs => rw [hsplit, pieces_cut hno hblank]

/-- The words of a line that an `int` can count. -/
theorem words_eq_pieces {input : Line} (hs : input.length < 2 ^ 31) : words input = pieces input :=
  cut_eq_pieces (Nat.lt_succ_self _) hs

/-! ## `Process` -/

/-- What a server answers to one call. -/
structure Answers where
  getUsage : Except Exn Nat
  checkAccount : AccountId → Except Exn Bool
  getClientUsage : Except Exn Nat
  getConnectUsage : Except Exn (List (Line × Nat))

/-- What is printed for a command. -/
inductive Output where
  | usage (n : Nat)
  | account (id : AccountId) (found : Bool)
  | clients (n : Nat)
  | connections (connected : List (Line × Nat))
  | commands
  | nothing

/-- A command that was taken off the queue, with its argument if it took one. -/
structure Call where
  command : Line
  argument : Option Line
  result : Except Exn Output

/-- The words a command has used. -/
def Call.used (c : Call) : List Line := c.command :: c.argument.toList

structure Shell where
  commands : List Line
  shellMode : Bool
  /-- `getline` was called for the last time -/
  ended : Bool
  /-- what has been run, and the lines that were read -/
  calls : List Call
  lines : List Line

/-- A command with its argument, which `account` takes from the queue. -/
def request (a : Answers) (command : Line) (rest : List Line) : Call :=
  if getRequest command = inqUsage then ⟨command, none, a.getUsage.map .usage⟩
  else if getRequest command = inqAccountCheck then
    match rest with
    | [] => ⟨command, none, .error (.stackTrace (String.ofList command ++ " : Argument Required"))⟩
    | argument :: _ =>
      ⟨command, some argument,
        (stoull argument).bind fun id => (a.checkAccount id).map (.account id)⟩
  else if getRequest command = inqClientUsage then ⟨command, none, a.getClientUsage.map .clients⟩
  else if getRequest command = inqConnUsage then
    ⟨command, none, a.getConnectUsage.map .connections⟩
  else if getRequest command = errDbFailed then ⟨command, none, .ok .commands⟩
  else if getRequest command = inqQuit ∨ getRequest command = inqExit then
    ⟨command, none, .ok .nothing⟩
  else
    ⟨command, none,
      .error (.stackTrace ("Unknown Command \x22" ++ String.ofList command ++ "\x22"))⟩

/-- The command ends the shell once the queue has been run. -/
def quits (command : Line) : Bool := getRequest command = inqQuit ∨ getRequest command = inqExit

namespace Shell

/-- `Process`, with what the server answers to it. -/
def process (sh : Shell) (a : Answers) (command : Line) (rest : List Line) : Shell :=
  let call := request a command rest
  { sh with
    commands := rest.drop call.argument.toList.length
    shellMode := sh.shellMode && !quits command
    calls := sh.calls ++ [call] }

/-- An exception has ended the last pass. -/
def failed (sh : Shell) : Bool :=
  sh.calls.getLast?.any fun call => match call.result with
    | .ok _ => false
    | .error _ => true

/-- The loop over the queue; the server answers each call as it likes. -/
def drain (server : Nat → Answers) : Nat → Shell → Shell
  | 0, sh => sh
  | fuel + 1, sh =>
    match sh.commands with
    | [] => sh
    | command :: rest =>
      let sh := sh.process (server sh.calls.length) command rest
      if sh.failed then sh else drain server fuel sh

/-- One pass of the loop of `main`. -/
def pass (server : Nat → Answers) (sh : Shell) (input : Line) : Shell :=
  let sh := { sh with commands := sh.commands ++ words input, lines := sh.lines ++ [input] }
  drain server sh.commands.length sh

/-- The first pass has no line to read. -/
def start (server : Nat → Answers) (args : List Line) (shellMode : Bool) : Shell :=
  drain server args.length ⟨args, shellMode || args.isEmpty, false, [], []⟩

/-- The next line is read, and an empty one is the last. -/
def step (server : Nat → Answers) (sh : Shell) (input : Line) : Option Shell :=
  if sh.ended || !sh.shellMode then none
  else if input = [] then some { sh with ended := true }
  else some (sh.pass server input)

/-! ## Every word is used once -/

variable {server : Nat → Answers} {a : Answers} {args : List Line} {sh : Shell}
  {command input : Line} {rest : List Line}

theorem request_command : (request a command rest).command = command := by
  unfold request
  split_ifs
  all_goals first | rfl | (split <;> rfl)

/-- Only `account` takes an argument, the next word of the queue. -/
theorem request_argument (a : Answers) (command : Line) (rest : List Line) :
    (request a command rest).argument = none ∨ ∃ argument behind, rest = argument :: behind ∧
      (request a command rest).argument = some argument ∧ getRequest command = inqAccountCheck := by
  unfold request
  split_ifs with _ haccount
  · exact .inl rfl
  · cases rest with
    | nil => exact .inl rfl
    | cons argument behind => exact .inr ⟨argument, behind, rfl, rfl, haccount⟩
  all_goals exact .inl rfl

/-- What was taken off the queue and what is on it. -/
def taken (sh : Shell) : List Line := sh.calls.flatMap Call.used ++ sh.commands

theorem taken_process (h : sh.commands = command :: rest) :
    (sh.process a command rest).taken = sh.taken := by
  rw [taken, taken, process, h]
  simp only [List.flatMap_append, List.flatMap_singleton, Call.used, request_command,
    List.append_assoc, List.cons_append]
  congr 2
  rcases request_argument a command rest with hnone |
    ⟨argument, behind, rfl, hsome, -⟩
  · simp [hnone]
  · simp [hsome]

/-- The calls of a session: an argument belongs to `account`, and nothing but the end of the
queue comes after a `quit`. -/
structure Sound (sh : Shell) : Prop where
  argument : ∀ c ∈ sh.calls, c.argument.isSome = true → getRequest c.command = inqAccountCheck
  quit : sh.shellMode = true → ∀ c ∈ sh.calls, quits c.command = false

theorem Sound.process (h : sh.Sound) : (sh.process a command rest).Sound where
  argument c hc hsome := by
    rcases List.mem_append.mp hc with hc | hc
    · exact h.argument c hc hsome
    · rw [List.mem_singleton.mp hc] at hsome ⊢
      rw [request_command]
      rcases request_argument a command rest with hnone |
        ⟨_, _, -, -, haccount⟩
      · rw [hnone] at hsome
        cases hsome
      · exact haccount
  quit hmode c hc := by
    obtain ⟨hmode, hquits⟩ := Bool.and_eq_true_iff.mp hmode
    rcases List.mem_append.mp hc with hc | hc
    · exact h.quit hmode c hc
    · rw [List.mem_singleton.mp hc, request_command]
      simpa using hquits

/-- The loop runs the queue to its end, or to the first exception. -/
theorem drain_spec (server : Nat → Answers) {sh : Shell} {fuel : Nat}
    (hf : sh.commands.length ≤ fuel) (h : sh.Sound) :
    (drain server fuel sh).taken = sh.taken ∧ (drain server fuel sh).Sound ∧
      (drain server fuel sh).lines = sh.lines ∧
      ((drain server fuel sh).commands ≠ [] → (drain server fuel sh).failed = true) := by
  induction fuel generalizing sh with
  | zero =>
    have hnil : sh.commands = [] := List.eq_nil_of_length_eq_zero (Nat.le_zero.mp hf)
    exact ⟨rfl, h, rfl, fun hne => absurd hnil hne⟩
  | succ fuel ih =>
    rw [drain]
    cases hc : sh.commands with
    | nil => exact ⟨rfl, h, rfl, fun hne => absurd hc hne⟩
    | cons command rest =>
      have htaken := taken_process (a := server sh.calls.length) hc
      have hsound : (sh.process (server sh.calls.length) command rest).Sound := h.process
      dsimp only
      split
      · rename_i hfailed
        exact ⟨htaken, hsound, rfl, fun _ => hfailed⟩
      · have hlen : (sh.process (server sh.calls.length) command rest).commands.length ≤ fuel := by
          rw [hc, List.length_cons] at hf
          show (rest.drop _).length ≤ fuel
          rw [List.length_drop]
          omega
        obtain ⟨htaken', hsound', hlines, hleft⟩ := ih hlen hsound
        exact ⟨htaken'.trans htaken, hsound', hlines, hleft⟩

/-- Every word of the arguments and of the lines read is used once and in order, as a command
or as the argument of `account`. What has not been used is there because an exception has
ended the last pass. No line is read after `quit` or `exit`. -/
structure Conducted (args : List Line) (sh : Shell) : Prop where
  words : sh.calls.flatMap Call.used ++ sh.commands = args ++ sh.lines.flatMap pieces
  left : sh.commands ≠ [] → sh.failed = true
  sound : sh.Sound

theorem conducted_start (args : List Line) (shellMode : Bool) :
    Conducted args (start server args shellMode) := by
  have hsound : Sound ⟨args, shellMode || args.isEmpty, false, [], []⟩ := ⟨nofun, fun _ => nofun⟩
  obtain ⟨htaken, hsound, hlines, hleft⟩ := drain_spec server (Nat.le_refl _) hsound
  refine ⟨?_, hleft, hsound⟩
  rw [show (start server args shellMode).lines = [] from hlines]
  exact htaken.trans (List.append_nil _).symm

theorem Conducted.pass (h : Conducted args sh) (hs : input.length < 2 ^ 31) :
    Conducted args (sh.pass server input) := by
  have hread : Sound { sh with
      commands := sh.commands ++ Manager.words input, lines := sh.lines ++ [input] } :=
    ⟨h.sound.argument, h.sound.quit⟩
  obtain ⟨htaken, hsound, hlines, hleft⟩ := drain_spec server (Nat.le_refl _) hread
  refine ⟨?_, hleft, hsound⟩
  rw [show (sh.pass server input).lines = sh.lines ++ [input] from hlines, List.flatMap_append,
    List.flatMap_singleton, ← List.append_assoc, ← h.words, ← words_eq_pieces hs,
    List.append_assoc]
  exact htaken

theorem Conducted.step (h : Conducted args sh) (hs : input.length < 2 ^ 31) {sh' : Shell}
    (hr : step server sh input = some sh') : Conducted args sh' := by
  unfold Shell.step at hr
  split at hr
  · cases hr
  split at hr
  · cases hr
    exact ⟨h.words, h.left, h.sound.argument, h.sound.quit⟩
  · cases hr
    exact h.pass hs

/-- **A session uses every word once**, whatever the server answers. -/
theorem always_conducted (server : Nat → Answers) (args : List Line) (shellMode : Bool)
    {lines : List Line} (hs : ∀ line ∈ lines, line.length < 2 ^ 31) :
    Always (step server) (Conducted args) (start server args shellMode) lines :=
  always_of_meets (fun _ h => h) (fun _ _ _ h hs hr => h.step hs hr)
    (conducted_start args shellMode) (meets_of_forall hs _)

theorem always_conducted_quit :
    Always (step fun _ => ⟨.ok 3, fun _ => .ok true, .ok 2, .ok []⟩) (Conducted ["usage".toList])
      (start (fun _ => ⟨.ok 3, fun _ => .ok true, .ok 2, .ok []⟩) ["usage".toList] true)
      ["account 7 conn".toList, "foo client".toList, "quit".toList] :=
  always_conducted _ _ _ (by decide)

end Shell
end DrgbServer.Manager
