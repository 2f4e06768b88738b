import SoftwareDynamics.Network.Sys
import SoftwareDynamics.ProofKit.CommandLine

/-! The command line of `server.cc`, and the listener threads that `main` starts for it. -/

namespace SoftwareDynamics.Network

open ProofKit Prog

section Program

structure ServerArgs where
  verbose : Bool
  startPort : Int32
  endPort : Int32
  deriving DecidableEq

/-- Whether the first argument is the flag. -/
def parseVerbose (argv : List CString) : Except Stop Bool :=
  if argv.length - 1 > 0 then (fun arg => decide (arg.bytes = ascii "-v")) <$> entry argv 1
  else pure false

/-- The ports, where `argv` has been shifted by some entries. -/
def parsePorts (argv : List CString) (shift : Nat) : Except Stop (Int32 × Int32) :=
  let argc := argv.length - shift
  if argc = 0 then pure (12345, 12348)
  else if argc = 2 then do
    let startPort ← entry argv (shift + 1)
    let endPort ← entry argv (shift + 2)
    pure (atoi startPort.bytes, atoi endPort.bytes)
  else .error (.exited 1)

/-- `parse_args`, with the entries of `argv` counted from the name of the program on. -/
def parseServerArgs (argv : List CString) : Except Stop ServerArgs := do
  let _binName ← entry argv 0
  let verbose ← parseVerbose argv
  let (startPort, endPort) ← parsePorts argv (if verbose then 2 else 1)
  if endPort < startPort then .error (.exited 1)
  return ⟨verbose, startPort, endPort⟩

/-- What `main` asks of the system. -/
inductive ThreadOp
  | pthreadCreate (port : Int32)
  | pthreadJoin (i : Nat)

/-- Whether an operation succeeds. -/
abbrev ThreadOp.Result : ThreadOp → Type := fun _ => Bool

/-- How `main` ends. -/
inductive MainEnd
  | returned
  | stopped (stop : Stop)
  deriving DecidableEq

/-- Starts `n` listener threads, from the number `i` on, unless one does not start. -/
def startListeners (startPort : Int32) (i : Nat) : Nat → Prog ThreadOp ThreadOp.Result Bool
  | 0 => pure true
  | n + 1 => do
    let created ← perform (.pthreadCreate (startPort + .ofNat i))
    if created then startListeners startPort (i + 1) n else pure false

def joinListeners (i : Nat) : Nat → Prog ThreadOp ThreadOp.Result Unit
  | 0 => pure ()
  | n + 1 => do
    let _ ← perform (.pthreadJoin i)
    joinListeners (i + 1) n

def serverMain (argv : List CString) : Prog ThreadOp ThreadOp.Result MainEnd :=
  match parseServerArgs argv with
  | .error stop => pure (.stopped stop)
  | .ok args => do
    let nThreads := (args.endPort - args.startPort + 1).toInt.toNat
    if ← startListeners args.startPort 0 nThreads then
      joinListeners 0 nThreads
      return .returned
    else return .stopped (.exited 1)

/-- Every thread starts.  The state is the ports for which there are threads. -/
def threadEnv : Env ThreadOp ThreadOp.Result (List Int32) where
  allows _ _ := True
  act ports op r ports' :=
    match op, r with
    | .pthreadCreate port, r => r = true ∧ ports' = ports ++ [port]
    | .pthreadJoin _, _ => ports' = ports

end Program

section Lines

/-- A numeral of a port. -/
abbrev PortNumeral := { n : Numeral // 1 ≤ n.value ∧ n.value ≤ 65535 }

def PortNumeral.cString (n : PortNumeral) : CString :=
  ⟨n.1.digits, n.1.not_mem_digits (by decide)⟩

def dashV : CString := ⟨ascii "-v", by decide⟩

/-- What stands behind the optional flag: nothing, two ports, or another number of arguments. -/
inductive PortArgs
  | defaults
  | range (start stop : PortNumeral)
  | others (args : List CString) (ne_zero : args.length ≠ 0) (ne_two : args.length ≠ 2)

def PortArgs.args : PortArgs → List CString
  | .defaults => []
  | .range start stop => [start.cString, stop.cString]
  | .others args _ _ => args

/-- A command line of the server. -/
structure ServerLine where
  binName : CString
  verbose : Bool
  ports : PortArgs
  flag_once : verbose = false → ports.args.head? ≠ some dashV

def ServerLine.argv (line : ServerLine) : List CString :=
  line.binName :: (if line.verbose then [dashV] else []) ++ line.ports.args

/-- `main` ends in this way only, and has started threads for these ports then. -/
def Starts (argv : List CString) (mainEnd : MainEnd) (ports : List Int32) : Prop :=
  ∀ mainEnd' ports', Exec threadEnv (serverMain argv) [] mainEnd' ports' ↔
    mainEnd' = mainEnd ∧ ports' = ports

/-- The arguments are parsed as they stand, and one thread is started for each port of the range. -/
def ServesPorts (argv : List CString) (verbose : Bool) (start stop : Nat) : Prop :=
  parseServerArgs argv = .ok ⟨verbose, .ofNat start, .ofNat stop⟩ ∧
    Starts argv .returned ((List.range (stop - start + 1)).map fun i => .ofNat (start + i))

/-- `main` stops before it has started any thread. -/
def StartsNone (argv : List CString) : Prop :=
  ∃ stop, Starts argv (.stopped stop) []

/-- The server does what the line asks for. -/
def ServerLine.Served (line : ServerLine) : Prop :=
  match line.ports with
  | .defaults => ServesPorts line.argv line.verbose 12345 12348
  | .range start stop =>
    if start.1.value ≤ stop.1.value then
      ServesPorts line.argv line.verbose start.1.value stop.1.value
    else StartsNone line.argv
  | .others _ _ _ => StartsNone line.argv

end Lines

section Parsing

variable (line : ServerLine)

/-- How many entries stand before the ports. -/
def ServerLine.shift : Nat := if line.verbose then 2 else 1

theorem ServerLine.drop_argv : line.argv.drop line.shift = line.ports.args := by
  unfold argv shift
  cases line.verbose <;> rfl

theorem ServerLine.length_argv : line.argv.length = line.shift + line.ports.args.length := by
  unfold argv shift
  cases line.verbose <;> simp [Nat.add_comm]; omega

/-- The flag is found where it is given. -/
theorem ServerLine.parseVerbose_eq : parseVerbose line.argv = .ok line.verbose := by
  have hflag := line.flag_once
  unfold parseVerbose argv
  cases hverbose : line.verbose with
  | true => rfl
  | false =>
    cases hargs : line.ports.args with
    | nil => rfl
    | cons arg args =>
      have hne : arg.bytes ≠ ascii "-v" := by
        intro heq
        have harg : arg = dashV := by
          obtain ⟨bytes, hnul⟩ := arg
          obtain rfl : bytes = ascii "-v" := heq
          rfl
        exact hflag hverbose (by rw [hargs, harg]; rfl)
      exact congrArg Except.ok (decide_eq_false hne)

/-- Two ports are read one entry too far. -/
theorem ServerLine.parsePorts_eq :
    parsePorts line.argv line.shift =
      match line.ports with
      | .defaults => .ok (12345, 12348)
      | .range _ _ => .error (.outOfRange line.argv.length)
      | .others _ _ _ => .error (.exited 1) := by
  have hargc : line.argv.length - line.shift = line.ports.args.length := by
    rw [line.length_argv, Nat.add_sub_cancel_left]
  have hdrop := line.drop_argv
  have hlength := line.length_argv
  unfold parsePorts
  rw [hargc]
  cases hports : line.ports with
  | defaults => rfl
  | range start stop =>
    rw [hports] at hdrop hlength
    have hend := entry_of_drop (drop_succ_of_drop hdrop)
    have hnone : line.argv[line.shift + 2]? = none :=
      List.getElem?_eq_none (Nat.le_of_eq hlength)
    have hbehind : entry line.argv (line.shift + 2) = .error (.outOfRange line.argv.length) := by
      rw [entry, hnone, hlength]
      rfl
    change (entry line.argv (line.shift + 1) >>= fun _ => _) = _
    rw [hend, Stop.ok_bind, hbehind]
    rfl
  | others args hzero htwo => exact (if_neg hzero).trans (if_neg htwo)

theorem ServerLine.parse_eq :
    parseServerArgs line.argv =
      match line.ports with
      | .defaults => .ok ⟨line.verbose, 12345, 12348⟩
      | .range _ _ => .error (.outOfRange line.argv.length)
      | .others _ _ _ => .error (.exited 1) := by
  have hname : entry line.argv 0 = .ok line.binName := rfl
  have hports := line.parsePorts_eq
  rw [shift] at hports
  rw [parseServerArgs, hname, Stop.ok_bind, line.parseVerbose_eq, Stop.ok_bind, hports]
  cases line.ports <;> rfl

end Parsing

section Threads

theorem threadEnv_total : threadEnv.Total := by
  rintro ports op -
  cases op with
  | pthreadCreate port => exact ⟨true, _, rfl, rfl⟩
  | pthreadJoin i => exact ⟨true, _, rfl⟩

theorem wp_startListeners (startPort : Int32) (i n : Nat) (ports : List Int32) :
    wp threadEnv (startListeners startPort i n) (fun created ports' => created = true ∧
      ports' = ports ++ (List.range n).map fun k => startPort + .ofNat (i + k)) ports := by
  induction n generalizing i ports with
  | zero => exact ⟨rfl, (List.append_nil ports).symm⟩
  | succ n ih =>
    rw [startListeners, wp_bind, wp_perform]
    refine ⟨trivial, ?_⟩
    rintro _ _ ⟨rfl, rfl⟩
    refine wp_mono (ih (i + 1) _) ?_
    rintro created ports' ⟨hcreated, rfl⟩
    refine ⟨hcreated, ?_⟩
    rw [List.range_succ_eq_map, List.map_cons, List.map_map, List.append_assoc,
      List.singleton_append, Nat.add_zero]
    congr 2
    apply List.map_congr_left
    intro k _
    rw [Function.comp_apply, Nat.succ_eq_add_one, Nat.add_assoc, Nat.add_comm 1]

theorem wp_joinListeners (i n : Nat) (ports : List Int32) :
    wp threadEnv (joinListeners i n) (fun _ ports' => ports' = ports) ports := by
  induction n generalizing i with
  | zero => rfl
  | succ n ih =>
    rw [joinListeners, wp_bind, wp_perform]
    refine ⟨trivial, ?_⟩
    rintro _ _ rfl
    exact ih (i + 1)

variable {argv : List CString}

theorem Starts.of_wp {mainEnd : MainEnd} {ports : List Int32}
    (h : wp threadEnv (serverMain argv) (fun e p => e = mainEnd ∧ p = ports) []) :
    Starts argv mainEnd ports := by
  intro mainEnd' ports'
  constructor
  · intro hexec
    exact hexec.of_wp h
  · rintro ⟨rfl, rfl⟩
    obtain ⟨_, _, hexec, rfl, rfl⟩ := h.exists_exec threadEnv_total
    exact hexec

/-- Where the arguments are not parsed, no thread is started. -/
theorem startsNone_of_error {stop : Stop} (h : parseServerArgs argv = .error stop) :
    StartsNone argv := by
  refine ⟨stop, Starts.of_wp ?_⟩
  rw [serverMain, h]
  exact ⟨rfl, rfl⟩

/-- One thread is started for each port of the range that the arguments are parsed as. -/
theorem serves_of_ok {verbose : Bool} {start stop : Nat}
    (h : parseServerArgs argv = .ok ⟨verbose, .ofNat start, .ofNat stop⟩) (hle : start ≤ stop)
    (hstop : stop ≤ 65535) : ServesPorts argv verbose start stop := by
  have hcount : (Int32.ofNat stop - Int32.ofNat start + 1).toInt.toNat = stop - start + 1 := by
    have hsum : Int32.ofNat stop - Int32.ofNat start + 1 = .ofNat (stop - start + 1) := by
      rw [Int32.ofNat_add, Int32.ofNat_sub stop start hle]
      rfl
    rw [hsum, Int32.toInt_ofNat_of_lt (by omega), Int.toNat_natCast]
  have hports (i : Nat) : Int32.ofNat start + .ofNat (0 + i) = .ofNat (start + i) := by
    rw [Nat.zero_add, Int32.ofNat_add]
  refine ⟨h, Starts.of_wp ?_⟩
  rw [serverMain, h]
  dsimp only
  rw [hcount, wp_bind]
  refine wp_mono (wp_startListeners _ _ _ _) ?_
  rintro _ _ ⟨rfl, rfl⟩
  rw [if_pos rfl, wp_bind]
  refine wp_mono (wp_joinListeners _ _ _) ?_
  rintro _ _ rfl
  exact ⟨rfl, by simp only [hports, List.nil_append]⟩

end Threads

section Result

variable {line : ServerLine}

theorem ServerLine.not_served {start stop : PortNumeral} (h : line.ports = .range start stop)
    (hle : start.1.value ≤ stop.1.value) : ¬line.Served := by
  have hparse := line.parse_eq
  rw [h] at hparse
  unfold Served
  rw [h]
  dsimp only
  rw [if_pos hle, ServesPorts, hparse]
  rintro ⟨hparsed, -⟩
  cases hparsed

/-- The server does what a line asks for if and only if the line gives no range of ports. -/
theorem served_iff (line : ServerLine) :
    line.Served ↔
      ∀ start stop, line.ports = .range start stop → stop.1.value < start.1.value := by
  have hparse := line.parse_eq
  constructor
  · intro h start stop hports
    exact Nat.lt_of_not_le fun hle => ServerLine.not_served hports hle h
  · intro h
    unfold ServerLine.Served
    cases hports : line.ports with
    | defaults =>
      rw [hports] at hparse
      exact serves_of_ok hparse (by decide) (by decide)
    | range start stop =>
      rw [hports] at hparse
      dsimp only
      rw [if_neg (Nat.not_le_of_lt (h start stop hports))]
      exact startsNone_of_error hparse
    | others args hzero htwo =>
      rw [hports] at hparse
      exact startsNone_of_error hparse

/-- The line `server 12345 12348`. -/
def sampleServerLine : ServerLine where
  binName := ⟨ascii "server", by decide⟩
  verbose := false
  ports := .range ⟨⟨ascii "12345", by decide, List.all_eq_true.mp rfl⟩, by decide⟩
    ⟨⟨ascii "12348", by decide, List.all_eq_true.mp rfl⟩, by decide⟩
  flag_once := by decide

/-- The second port is read behind the last argument. -/
theorem not_served_sample : ¬sampleServerLine.Served ∧
    parseServerArgs sampleServerLine.argv = .error (.outOfRange 3) :=
  ⟨ServerLine.not_served rfl (by decide), by decide⟩

end Result

end SoftwareDynamics.Network
