import SoftwareDynamics.Network.Client
import SoftwareDynamics.ProofKit.CommandLine

/-! The command line of `client.cc`. -/

namespace SoftwareDynamics.Network

open ProofKit

section Program

/-- The arguments before the command. -/
structure Options where
  nConns : UInt32
  rpcsPerConn : UInt32
  waitMs : UInt32
  seed1 : Bool
  verbose : Bool
  deriving DecidableEq

def Options.unset : Options := ⟨1, 1, 0, false, false⟩

def StrConfig.unset : StrConfig := ⟨none, false, 0⟩

def parsePort (arg : CString) : Except Stop UInt16 :=
  let (port, erange) := strtol arg.bytes
  if erange then .error (.exited 1) else .ok (.ofInt port)

/-- The number behind the option at an index. -/
def parseCount (argv : List CString) (nextArg : Nat) : Except Stop UInt32 :=
  if nextArg + 1 ≥ argv.length then .error (.exited 1)
  else (fun arg => (atoi arg.bytes).toUInt32) <$> entry argv (nextArg + 1)

/-- The loop over the options, which ends with the index of the command. -/
def parseOptions (argv : List CString) (options : Options) (nextArg : Nat) :
    Except Stop (Options × Nat) :=
  if _h : nextArg < argv.length then do
    let arg ← entry argv nextArg
    if arg.bytes = ascii "-rep" then
      let nConns ← parseCount argv nextArg
      parseOptions argv { options with nConns } (nextArg + 2)
    else if arg.bytes = ascii "-k" then
      let rpcsPerConn ← parseCount argv nextArg
      parseOptions argv { options with rpcsPerConn } (nextArg + 2)
    else if arg.bytes = ascii "-waitms" then
      let waitMs ← parseCount argv nextArg
      parseOptions argv { options with waitMs } (nextArg + 2)
    else if arg.bytes = ascii "-seed1" then
      parseOptions argv { options with seed1 := true } (nextArg + 1)
    else if arg.bytes = ascii "-verbose" then
      parseOptions argv { options with verbose := true } (nextArg + 1)
    else .ok (options, nextArg)
  else .ok (options, nextArg)
termination_by argv.length - nextArg

def parseCommand (arg : CString) : Except Stop { command : Command // arg.bytes = command.str } :=
  if h : arg.bytes = ascii "ping" then .ok ⟨.Ping, h⟩
  else if h : arg.bytes = ascii "write" then .ok ⟨.Write, h⟩
  else if h : arg.bytes = ascii "read" then .ok ⟨.Read, h⟩
  else if h : arg.bytes = ascii "quit" then .ok ⟨.Quit, h⟩
  else .error (.exited 1)

/-- Whether there is a plus at an index. -/
def parsePlus (argv : List CString) (nextArg : Nat) : Except Stop Bool :=
  if nextArg < argv.length then (fun arg => decide (arg.bytes = ascii "+")) <$> entry argv nextArg
  else .ok false

/-- The length to pad to, where the argument at an index is not a further option.  It is not that
argument that is read for it. -/
def parsePaddedLength (argv : List CString) (nextArg : Nat) : Except Stop (Option UInt64) :=
  if nextArg < argv.length then do
    let arg ← entry argv nextArg
    if arg.bytes.head? = some 0x2d then .ok none
    else (fun arg => some (.ofInt (strtol arg.bytes).1)) <$> entry argv (nextArg + 3)
  else .ok none

/-- What stands behind `-key` or `-value`, with the number of arguments that are there beside the
base. -/
def parseStrConfig (argv : List CString) (config : StrConfig) (nextArg : Nat) :
    Except Stop (StrConfig × Nat) :=
  if nextArg + 1 ≥ argv.length then .error (.exited 1)
  else do
    let base ← entry argv (nextArg + 1)
    let plus ← parsePlus argv (nextArg + 2)
    let padded ← parsePaddedLength argv (nextArg + 2 + plus.toNat)
    .ok (⟨some base, config.incrementBase || plus, padded.getD (.ofNat base.bytes.length)⟩,
      plus.toNat + padded.isSome.toNat)

/-- The loop over what stands behind the command. -/
def parseStrConfigs (argv : List CString) (keyConfig valueConfig : StrConfig) (nextArg : Nat) :
    Except Stop (StrConfig × StrConfig) :=
  if _h : nextArg < argv.length then do
    let arg ← entry argv nextArg
    if arg.bytes = ascii "-key" then
      let (keyConfig, more) ← parseStrConfig argv keyConfig nextArg
      parseStrConfigs argv keyConfig valueConfig (nextArg + 2 + more)
    else if arg.bytes = ascii "-value" then
      let (valueConfig, more) ← parseStrConfig argv valueConfig nextArg
      parseStrConfigs argv keyConfig valueConfig (nextArg + 2 + more)
    else .error (.exited 1)
  else .ok (keyConfig, valueConfig)
termination_by argv.length - nextArg

/-- What `write` wants to be there. -/
def validates (command : Command) (keyConfig valueConfig : StrConfig) : Bool :=
  command ≠ .Write || keyConfig.base.isSome && valueConfig.base.isSome

/-- `parse_args`, of the client. -/
def parseArgs (argv : List CString) : Except Stop Args :=
  if argv.length < 4 then .error (.exited 1)
  else do
    let server ← entry argv 1
    let portArg ← entry argv 2
    let port ← parsePort portArg
    let (options, nextArg) ← parseOptions argv .unset 3
    if nextArg ≥ argv.length then .error (.exited 1)
    else
      let commandStr ← entry argv nextArg
      let ⟨command, commandStr_eq⟩ ← parseCommand commandStr
      let (keyConfig, valueConfig) ← parseStrConfigs argv .unset .unset (nextArg + 1)
      if validates command keyConfig valueConfig then
        .ok { options with
          server, port, command, commandStr, commandStr_eq, keyConfig, valueConfig }
      else .error (.exited 1)

end Program

section Lines

/-- A numeral of a number that an option gives. -/
abbrev CountNumeral := { n : Numeral // n.value < 2 ^ 31 }

/-- One option of a command line. -/
inductive Flag
  | rep (n : CountNumeral)
  | k (n : CountNumeral)
  | waitms (n : CountNumeral)
  | seed1
  | verbose
  deriving DecidableEq

def CString.ofNumeral (n : Numeral) : CString := ⟨n.digits, n.not_mem_digits (by decide)⟩

def Flag.args : Flag → List CString
  | .rep n => [⟨ascii "-rep", by decide⟩, CString.ofNumeral n.1]
  | .k n => [⟨ascii "-k", by decide⟩, CString.ofNumeral n.1]
  | .waitms n => [⟨ascii "-waitms", by decide⟩, CString.ofNumeral n.1]
  | .seed1 => [⟨ascii "-seed1", by decide⟩]
  | .verbose => [⟨ascii "-verbose", by decide⟩]

def Flag.rep? : Flag → Option CountNumeral
  | .rep n => some n
  | _ => none

def Flag.k? : Flag → Option CountNumeral
  | .k n => some n
  | _ => none

def Flag.waitms? : Flag → Option CountNumeral
  | .waitms n => some n
  | _ => none

/-- The number that the last of the options of some kind gives. -/
def lastCount (count : Flag → Option CountNumeral) (flags : List Flag) : Option UInt32 :=
  (flags.filterMap count).getLast?.map fun n => .ofNat n.1.value

/-- What is given for a key or a value. -/
structure StrArgs where
  base : CString
  plus : Bool
  padLen : Option Numeral

def StrArgs.args (s : StrArgs) : List CString :=
  s.base :: (if s.plus then [⟨ascii "+", by decide⟩] else []) ++
    (s.padLen.map CString.ofNumeral).toList

def StrArgs.config (s : StrArgs) : StrConfig where
  base := some s.base
  incrementBase := s.plus
  paddedLength := .ofNat (s.padLen.elim s.base.bytes.length Numeral.value)

/-- A command line of the client, whose options may stand in any order. -/
structure ClientLine where
  binName : CString
  server : CString
  port : { n : Numeral // n.value ≤ 65535 }
  flags : List Flag
  command : Command
  key : Option StrArgs
  value : Option StrArgs
  valueFirst : Bool

def Command.cString (command : Command) : CString :=
  ⟨command.str, command.str_noNul⟩

def ClientLine.keyArgs (line : ClientLine) : List CString :=
  line.key.elim [] fun s => ⟨ascii "-key", by decide⟩ :: s.args

def ClientLine.valueArgs (line : ClientLine) : List CString :=
  line.value.elim [] fun s => ⟨ascii "-value", by decide⟩ :: s.args

def ClientLine.argv (line : ClientLine) : List CString :=
  line.binName :: line.server :: CString.ofNumeral line.port.1 ::
    line.flags.flatMap Flag.args ++ line.command.cString ::
      if line.valueFirst then line.valueArgs ++ line.keyArgs else line.keyArgs ++ line.valueArgs

/-- The values that the line gives. -/
def ClientLine.args (line : ClientLine) : Args where
  server := line.server
  port := .ofNat line.port.1.value
  nConns := (lastCount Flag.rep? line.flags).getD 1
  rpcsPerConn := (lastCount Flag.k? line.flags).getD 1
  waitMs := (lastCount Flag.waitms? line.flags).getD 0
  seed1 := decide (.seed1 ∈ line.flags)
  verbose := decide (.verbose ∈ line.flags)
  command := line.command
  commandStr := line.command.cString
  commandStr_eq := rfl
  keyConfig := line.key.elim .unset StrArgs.config
  valueConfig := line.value.elim .unset StrArgs.config

/-- The line gives no length to pad to. -/
def ClientLine.Unpadded (line : ClientLine) : Prop :=
  line.key.bind StrArgs.padLen = none ∧ line.value.bind StrArgs.padLen = none

/-- The line gives all that its command wants to be there. -/
def ClientLine.Complete (line : ClientLine) : Prop :=
  line.command = .Write → line.key.isSome ∧ line.value.isSome

end Lines

section Options

variable {argv rest : List CString} {i : Nat} {options : Options}

/-- What an option changes. -/
def Flag.give (options : Options) : Flag → Options
  | .rep n => { options with nConns := .ofNat n.1.value }
  | .k n => { options with rpcsPerConn := .ofNat n.1.value }
  | .waitms n => { options with waitMs := .ofNat n.1.value }
  | .seed1 => { options with seed1 := true }
  | .verbose => { options with verbose := true }

theorem parseCount_eq {arg : CString} (n : CountNumeral)
    (h : argv.drop i = arg :: CString.ofNumeral n.1 :: rest) :
    parseCount argv i = .ok (.ofNat n.1.value) := by
  have hnext := drop_succ_of_drop h
  have hvalue := n.1.atoi_digits (Nat.lt_trans n.2 (by decide))
  rw [parseCount, if_neg (Nat.not_le_of_lt (lt_of_drop hnext)), entry_of_drop hnext]
  exact congrArg (fun v : Int32 => Except.ok v.toUInt32) hvalue

/-- One turn of the loop. -/
theorem parseOptions_flag (flag : Flag) (h : argv.drop i = flag.args ++ rest) :
    parseOptions argv options i =
      parseOptions argv (flag.give options) (i + flag.args.length) := by
  rw [parseOptions]
  cases flag with
  | rep n =>
    rw [dif_pos (lt_of_drop h), entry_of_drop h, Stop.ok_bind, if_pos rfl, parseCount_eq n h]
    rfl
  | k n =>
    rw [dif_pos (lt_of_drop h), entry_of_drop h, Stop.ok_bind, if_neg (by decide), if_pos rfl,
      parseCount_eq n h]
    rfl
  | waitms n =>
    rw [dif_pos (lt_of_drop h), entry_of_drop h, Stop.ok_bind, if_neg (by decide),
      if_neg (by decide), if_pos rfl, parseCount_eq n h]
    rfl
  | seed1 =>
    rw [dif_pos (lt_of_drop h), entry_of_drop h, Stop.ok_bind, if_neg (by decide),
      if_neg (by decide), if_neg (by decide), if_pos rfl]
    rfl
  | verbose =>
    rw [dif_pos (lt_of_drop h), entry_of_drop h, Stop.ok_bind, if_neg (by decide),
      if_neg (by decide), if_neg (by decide), if_neg (by decide), if_pos rfl]
    rfl

theorem parseOptions_command (command : Command) (h : argv.drop i = command.cString :: rest) :
    parseOptions argv options i = .ok (options, i) := by
  rw [parseOptions, dif_pos (lt_of_drop h), entry_of_drop h, Stop.ok_bind]
  cases command <;> rfl

/-- The loop takes the options up to the command. -/
theorem parseOptions_eq (flags : List Flag) (command : Command)
    (h : argv.drop i = flags.flatMap Flag.args ++ command.cString :: rest) :
    parseOptions argv options i =
      .ok (flags.foldl Flag.give options, i + (flags.flatMap Flag.args).length) := by
  induction flags generalizing i options with
  | nil => exact parseOptions_command command h
  | cons flag flags ih =>
    rw [List.flatMap_cons, List.append_assoc] at h
    rw [parseOptions_flag flag h, ih (drop_add_of_drop h), List.flatMap_cons, List.length_append,
      Nat.add_assoc]
    rfl

theorem lastCount_cons (count : Flag → Option CountNumeral) (flag : Flag) (flags : List Flag) :
    lastCount count (flag :: flags) =
      (lastCount count flags).or ((count flag).map fun n => .ofNat n.1.value) := by
  unfold lastCount
  cases hflag : count flag with
  | none => rw [List.filterMap_cons_none hflag, Option.map_none, Option.or_none]
  | some n =>
    rw [List.filterMap_cons_some hflag, List.getLast?_cons]
    cases (flags.filterMap count).getLast? <;> rfl

/-- The last option of a kind is the one that counts. -/
theorem foldl_give (flags : List Flag) (options : Options) :
    flags.foldl Flag.give options =
      { nConns := (lastCount Flag.rep? flags).getD options.nConns
        rpcsPerConn := (lastCount Flag.k? flags).getD options.rpcsPerConn
        waitMs := (lastCount Flag.waitms? flags).getD options.waitMs
        seed1 := options.seed1 || decide (.seed1 ∈ flags)
        verbose := options.verbose || decide (.verbose ∈ flags) } := by
  induction flags generalizing options with
  | nil => simp [lastCount]
  | cons flag flags ih =>
    rw [List.foldl_cons, ih]
    simp only [lastCount_cons, Option.getD_or, List.mem_cons, Bool.decide_or, ← Bool.or_assoc]
    cases flag <;> simp [Flag.give, Flag.rep?, Flag.k?, Flag.waitms?]

end Options
section Configs

variable {argv rest : List CString} {i : Nat} {name : CString} {keyConfig valueConfig : StrConfig}

/-- Nothing is left, or an option is next. -/
def OptionNext (rest : List CString) : Prop :=
  ∀ arg, rest.head? = some arg → arg.bytes.head? = some 0x2d

theorem OptionNext.nil : OptionNext [] := nofun

theorem OptionNext.cons (h : name.bytes.head? = some 0x2d) : OptionNext (name :: rest) := by
  rintro arg ⟨⟩
  exact h

theorem parsePlus_plus {arg : CString} (h : argv.drop i = arg :: rest)
    (harg : arg.bytes = ascii "+") : parsePlus argv i = .ok true := by
  rw [parsePlus, if_pos (lt_of_drop h), entry_of_drop h]
  exact congrArg Except.ok (decide_eq_true harg)

theorem parsePlus_next (h : argv.drop i = rest) (hnext : OptionNext rest) :
    parsePlus argv i = .ok false := by
  unfold parsePlus
  cases rest with
  | nil => exact if_neg (not_lt_of_drop h)
  | cons arg rest =>
    have hne : arg.bytes ≠ ascii "+" := by
      intro heq
      have hdash := hnext arg rfl
      rw [heq] at hdash
      exact absurd hdash (by decide)
    rw [if_pos (lt_of_drop h), entry_of_drop h]
    exact congrArg Except.ok (decide_eq_false hne)

theorem parsePaddedLength_next (h : argv.drop i = rest) (hnext : OptionNext rest) :
    parsePaddedLength argv i = .ok none := by
  unfold parsePaddedLength
  cases rest with
  | nil => exact if_neg (not_lt_of_drop h)
  | cons arg rest =>
    rw [if_pos (lt_of_drop h), entry_of_drop h, Stop.ok_bind, if_pos (hnext arg rfl)]

/-- Without a length to pad to, what is given is what is parsed. -/
theorem parseStrConfig_eq (s : StrArgs) (hpad : s.padLen = none)
    (h : argv.drop i = (name :: s.args) ++ rest) (hnext : OptionNext rest) :
    parseStrConfig argv .unset i = .ok (s.config, s.plus.toNat) := by
  obtain ⟨base, plus, padLen⟩ := s
  obtain rfl : padLen = none := hpad
  have hbase := drop_succ_of_drop h
  have hbehind := drop_succ_of_drop hbase
  rw [parseStrConfig, if_neg (Nat.not_le_of_lt (lt_of_drop hbase)), entry_of_drop hbase,
    Stop.ok_bind]
  cases plus with
  | false =>
    rw [parsePlus_next hbehind hnext, Stop.ok_bind]
    rw [parsePaddedLength_next (i := i + 2 + false.toNat) hbehind hnext]
    rfl
  | true =>
    rw [parsePlus_plus hbehind rfl, Stop.ok_bind]
    rw [parsePaddedLength_next (i := i + 2 + true.toNat) (drop_succ_of_drop hbehind) hnext]
    rfl

theorem StrArgs.length_args (s : StrArgs) (hpad : s.padLen = none) :
    (name :: s.args).length = 2 + s.plus.toNat := by
  obtain ⟨base, plus, padLen⟩ := s
  obtain rfl : padLen = none := hpad
  cases plus <;> rfl

theorem parseStrConfigs_key {line : ClientLine} (hpad : line.Unpadded)
    (h : argv.drop i = line.keyArgs ++ rest) (hnext : OptionNext rest) :
    parseStrConfigs argv .unset valueConfig i =
      parseStrConfigs argv (line.key.elim .unset StrArgs.config) valueConfig
        (i + line.keyArgs.length) := by
  unfold ClientLine.keyArgs at *
  cases hkey : line.key with
  | none => rfl
  | some s =>
    rw [hkey] at h
    have hnone : s.padLen = none := by
      rw [← hpad.1, hkey]
      rfl
    rw [parseStrConfigs]
    dsimp only [Option.elim_some] at h ⊢
    rw [dif_pos (lt_of_drop h), entry_of_drop h, Stop.ok_bind, if_pos rfl,
      parseStrConfig_eq s hnone h hnext, Stop.ok_bind, s.length_args hnone, ← Nat.add_assoc]

theorem parseStrConfigs_value {line : ClientLine} (hpad : line.Unpadded)
    (h : argv.drop i = line.valueArgs ++ rest) (hnext : OptionNext rest) :
    parseStrConfigs argv keyConfig .unset i =
      parseStrConfigs argv keyConfig (line.value.elim .unset StrArgs.config)
        (i + line.valueArgs.length) := by
  unfold ClientLine.valueArgs at *
  cases hvalue : line.value with
  | none => rfl
  | some s =>
    rw [hvalue] at h
    have hnone : s.padLen = none := by
      rw [← hpad.2, hvalue]
      rfl
    rw [parseStrConfigs]
    dsimp only [Option.elim_some] at h ⊢
    rw [dif_pos (lt_of_drop h), entry_of_drop h, Stop.ok_bind, if_neg (by decide), if_pos rfl,
      parseStrConfig_eq s hnone h hnext, Stop.ok_bind, s.length_args hnone, ← Nat.add_assoc]

theorem parseStrConfigs_nil (h : argv.drop i = []) :
    parseStrConfigs argv keyConfig valueConfig i = .ok (keyConfig, valueConfig) := by
  rw [parseStrConfigs, dif_neg (not_lt_of_drop h)]

theorem ClientLine.optionNext_keyArgs (line : ClientLine) : OptionNext line.keyArgs := by
  unfold keyArgs
  cases line.key with
  | none => exact .nil
  | some s => exact .cons rfl

theorem ClientLine.optionNext_valueArgs (line : ClientLine) : OptionNext line.valueArgs := by
  unfold valueArgs
  cases line.value with
  | none => exact .nil
  | some s => exact .cons rfl

/-- The loop takes the key and the value in either order. -/
theorem parseStrConfigs_eq {line : ClientLine} (hpad : line.Unpadded)
    (h : argv.drop i = if line.valueFirst then line.valueArgs ++ line.keyArgs
      else line.keyArgs ++ line.valueArgs) :
    parseStrConfigs argv .unset .unset i =
      .ok (line.key.elim .unset StrArgs.config, line.value.elim .unset StrArgs.config) := by
  cases hfirst : line.valueFirst with
  | true =>
    rw [hfirst, if_pos rfl] at h
    rw [parseStrConfigs_value hpad h line.optionNext_keyArgs]
    have hkey := drop_add_of_drop h
    rw [← List.append_nil line.keyArgs] at hkey
    rw [parseStrConfigs_key hpad hkey .nil, parseStrConfigs_nil (drop_add_of_drop hkey)]
  | false =>
    rw [hfirst, if_neg Bool.false_ne_true] at h
    rw [parseStrConfigs_key hpad h line.optionNext_valueArgs]
    have hvalue := drop_add_of_drop h
    rw [← List.append_nil line.valueArgs] at hvalue
    rw [parseStrConfigs_value hpad hvalue .nil, parseStrConfigs_nil (drop_add_of_drop hvalue)]

theorem parsePaddedLength_last (n : Numeral) (h : argv.drop i = [CString.ofNumeral n]) :
    parsePaddedLength argv i = .error (.outOfRange (argv.length + 2)) := by
  have hdigit : (CString.ofNumeral n).bytes.head? ≠ some 0x2d := fun heq =>
    n.not_mem_digits (by decide) (List.mem_of_head? heq)
  have hlt := lt_of_drop h
  have hend := List.drop_eq_nil_iff.mp (drop_succ_of_drop h)
  have hnone : argv[i + 3]? = none := List.getElem?_eq_none (by omega)
  rw [parsePaddedLength, if_pos hlt, entry_of_drop h, Stop.ok_bind, if_neg hdigit, entry, hnone,
    Nat.le_antisymm hend hlt]
  rfl

theorem parsePlus_numeral (n : Numeral) (h : argv.drop i = CString.ofNumeral n :: rest) :
    parsePlus argv i = .ok false := by
  have hne : (CString.ofNumeral n).bytes ≠ ascii "+" := by
    intro heq
    have hdigit := n.decimals 0x2b (by rw [show n.digits = ascii "+" from heq]; decide)
    exact absurd hdigit (by decide)
  rw [parsePlus, if_pos (lt_of_drop h), entry_of_drop h]
  exact congrArg Except.ok (decide_eq_false hne)

/-- A length that is the last argument is looked for behind the end. -/
theorem parseStrConfig_last (s : StrArgs) {n : Numeral} (hpad : s.padLen = some n)
    (config : StrConfig) (h : argv.drop i = name :: s.args) :
    parseStrConfig argv config i = .error (.outOfRange (argv.length + 2)) := by
  obtain ⟨base, plus, padLen⟩ := s
  obtain rfl : padLen = some n := hpad
  have hbase := drop_succ_of_drop h
  have hbehind := drop_succ_of_drop hbase
  rw [parseStrConfig, if_neg (Nat.not_le_of_lt (lt_of_drop hbase)), entry_of_drop hbase,
    Stop.ok_bind]
  cases plus with
  | false =>
    rw [parsePlus_numeral n hbehind, Stop.ok_bind]
    rw [parsePaddedLength_last (i := i + 2 + false.toNat) n hbehind]
    rfl
  | true =>
    rw [parsePlus_plus hbehind rfl, Stop.ok_bind]
    rw [parsePaddedLength_last (i := i + 2 + true.toNat) n (drop_succ_of_drop hbehind)]
    rfl

end Configs

section Result

variable (line : ClientLine)

theorem parsePort_eq (n : Numeral) (h : n.value ≤ 65535) :
    parsePort (CString.ofNumeral n) = .ok (.ofNat n.value) := by
  have hvalue := n.strtol_digits (Nat.lt_of_le_of_lt h (by decide))
  rw [parsePort]
  dsimp only [CString.ofNumeral]
  rw [hvalue]
  have hmod : (n.value : Int) % 2 ^ 16 = n.value := by omega
  exact congrArg (fun v : Int => Except.ok (UInt16.ofNat v.toNat)) hmod

theorem parseCommand_eq (command : Command) :
    parseCommand command.cString = .ok ⟨command, rfl⟩ := by
  cases command <;> rfl

/-- What `write` wants to be there is there if and only if it is given. -/
theorem validates_iff : validates line.command (line.key.elim .unset StrArgs.config)
    (line.value.elim .unset StrArgs.config) = true ↔ line.Complete := by
  rw [validates, ClientLine.Complete, Bool.or_eq_true, Bool.and_eq_true, decide_eq_true_iff,
    imp_iff_not_or]
  apply or_congr_right
  cases line.key <;> cases line.value <;> exact Iff.rfl

theorem parseArgs_eq (hpad : line.Unpadded) :
    parseArgs line.argv =
      if validates line.command (line.key.elim .unset StrArgs.config)
        (line.value.elim .unset StrArgs.config) then .ok line.args else .error (.exited 1) := by
  have hserver : entry line.argv 1 = .ok line.server := rfl
  have hport : entry line.argv 2 = .ok (CString.ofNumeral line.port.1) := rfl
  have hdrop : line.argv.drop 3 = line.flags.flatMap Flag.args ++ line.command.cString ::
      if line.valueFirst then line.valueArgs ++ line.keyArgs
      else line.keyArgs ++ line.valueArgs := rfl
  have hcommand := drop_add_of_drop hdrop
  have hlt := lt_of_drop hcommand
  rw [parseArgs, if_neg (by omega), hserver, Stop.ok_bind, hport, Stop.ok_bind,
    parsePort_eq _ line.port.2, Stop.ok_bind, parseOptions_eq _ _ hdrop, Stop.ok_bind]
  dsimp only
  rw [if_neg (Nat.not_le_of_lt hlt), entry_of_drop hcommand, Stop.ok_bind, parseCommand_eq,
    Stop.ok_bind, parseStrConfigs_eq hpad (drop_succ_of_drop hcommand), Stop.ok_bind, foldl_give]
  simp only [Options.unset, Bool.false_or]
  rfl

/-- Without a length to pad to, the values of the line are parsed, unless the command is `write` and
the key or the value is not there. -/
theorem parseArgs_line (hpad : line.Unpadded) :
    (line.Complete → parseArgs line.argv = .ok line.args) ∧
      (¬line.Complete → parseArgs line.argv = .error (.exited 1)) := by
  have hparse := parseArgs_eq line hpad
  constructor
  · intro hcomplete
    rw [hparse, if_pos ((validates_iff line).mpr hcomplete)]
  · intro hcomplete
    rw [hparse, if_neg (mt (validates_iff line).mp hcomplete)]

theorem samplePort_ne_nil : ascii "12345" ≠ [] := by decide

theorem samplePort_isDecimal : ∀ x ∈ ascii "12345", isDecimal x = true :=
  List.all_eq_true.mp rfl

/-- The line `client localhost 12345 -rep 10 -seed1 write -value bar + -key foo`. -/
def sampleClientLine : ClientLine where
  binName := ⟨ascii "client", by decide⟩
  server := ⟨ascii "localhost", by decide⟩
  port := ⟨⟨ascii "12345", samplePort_ne_nil, samplePort_isDecimal⟩, by decide⟩
  flags := [.rep ⟨⟨ascii "10", by decide, List.all_eq_true.mp rfl⟩, by decide⟩, .seed1]
  command := .Write
  key := some ⟨⟨ascii "foo", by decide⟩, false, none⟩
  value := some ⟨⟨ascii "bar", by decide⟩, true, none⟩
  valueFirst := true

theorem parseArgs_sample : parseArgs sampleClientLine.argv = .ok sampleClientLine.args :=
  (parseArgs_line sampleClientLine ⟨rfl, rfl⟩).1 fun _ => ⟨rfl, rfl⟩

/-- The line `client localhost 12345 -rep 10 -seed1 write -value bar +`. -/
def keylessClientLine : ClientLine := { sampleClientLine with key := none }

/-- A `write` without a key is not parsed. -/
theorem parseArgs_keyless :
    parseArgs keylessClientLine.argv = .error (.exited 1) ∧
      parseArgs keylessClientLine.argv ≠ .ok keylessClientLine.args := by
  have hparse : parseArgs keylessClientLine.argv = .error (.exited 1) :=
    parseArgs_eq keylessClientLine ⟨rfl, rfl⟩
  refine ⟨hparse, ?_⟩
  rw [hparse]
  exact nofun

end Result
end SoftwareDynamics.Network
