import VernisOS.AiEngine
import VernisOS.Kfs
import VernisOS.UserDb
import VernisOS.Lib.Traced

/-!
# The kernel shell

`kernel/shell/cli.c` : the strings, the parser, the table of commands and the state of a
session. A string is its characters before the NUL. A command line is parsed into a copy of
it; the words of a `ParsedCommand` are the strings its pointers lead to.
-/

open Bytes

namespace VernisOS

/-! ## Strings -/

/-- `cli_strcpy` : what it leaves in `dst`. Behind the copied characters `dst` stays what it
was, up to the NUL in its last byte. -/
def cliStrcpy (dst src : List UInt8) (max : ℕ) : List UInt8 :=
  ((cStr src).take (max - 1) ++ dst.drop ((cStr src).take (max - 1)).length).set (max - 1) 0

theorem length_cliStrcpy (dst src : List UInt8) (max : ℕ) (h : dst.length = max) :
    (cliStrcpy dst src max).length = max := by
  simp only [cliStrcpy, List.length_set, List.length_append, List.length_take, List.length_drop]
  omega

/-- A `char[32]` whose last byte is the NUL that `cli_strcpy` puts there. -/
structure CliName where
  bytes : List UInt8
  size : bytes.length = 32
  ended : bytes[31]? = some 0

namespace CliName

/-- The name that the array holds. -/
def str (n : CliName) : List UInt8 :=
  cStr n.bytes

/-- `cli_strcpy(n, src, 32)`. -/
def strcpy (n : CliName) (src : List UInt8) : CliName where
  bytes := cliStrcpy n.bytes src 32
  size := length_cliStrcpy _ _ _ n.size
  ended := by
    have := length_cliStrcpy n.bytes src 32 n.size
    simp only [cliStrcpy, List.length_set] at this ⊢
    rw [List.getElem?_set_self (by omega)]

/-- An array of zeros. -/
def zero : CliName :=
  ⟨List.replicate 32 0, by simp, by simp⟩

end CliName

/-- The string that starts at the first of these bytes, as a path. -/
def cPath (bytes : List UInt8) : CStr where
  chars := cStr bytes
  noNul := fun h => by simpa [cStr] using List.mem_takeWhile_imp h

/-- `"root"`. -/
def strRoot : List UInt8 := [114, 111, 111, 116]

/-- The words with a blank between them, cut off at `max - 1` characters (`cli_join_args`). -/
def cliJoinArgs (args : List (List UInt8)) (max : ℕ) : List UInt8 :=
  ([32].intercalate args).take (max - 1)

/-! ## Parser -/

/-- `CLI_MAX_INPUT_LEN`. -/
def cliMaxInputLen : ℕ := 256

/-- `CLI_MAX_ARGS`. -/
def cliMaxArgs : ℕ := 16

/-- A blank or a tab. -/
def isBlank (c : UInt8) : Bool :=
  c = 32 || c = 9

/-- A character that ends a word. -/
def endsToken (c : UInt8) : Bool :=
  isBlank c || c = 38 || c = 60 || c = 62

/-- `ParsedCommand`. -/
structure ParsedCommand where
  argv : List (List UInt8)
  background : Bool
  inputRedirect : Option (List UInt8)
  outputRedirect : Option (List UInt8)
  pipeTo : Option (List UInt8)

namespace ParsedCommand

/-- A cleared `ParsedCommand`. -/
def empty : ParsedCommand :=
  ⟨[], false, none, none, none⟩

/-- `argc`. -/
def argc (cmd : ParsedCommand) : ℕ :=
  cmd.argv.length

/-- `argv[i]`. -/
def arg (cmd : ParsedCommand) (i : ℕ) : List UInt8 :=
  cmd.argv.getD i []

end ParsedCommand

/-- The loop of `cli_parse_command` at the characters `p`. Every pass uses up at least one. -/
def cliParseLoop : ℕ → List UInt8 → ParsedCommand → ParsedCommand
  | 0, _, cmd => cmd
  | n + 1, p, cmd =>
    if p = [] ∨ cliMaxArgs ≤ cmd.argc then cmd
    else
      match p.dropWhile isBlank with
      | [] => cmd
      | c :: p =>
        if c = 38 then cliParseLoop n p { cmd with background := true }
        else if c = 60 then
          let p := p.dropWhile (· = 32)
          cliParseLoop n (p.dropWhile fun c => !isBlank c).tail
            { cmd with inputRedirect := some (p.takeWhile fun c => !isBlank c) }
        else if c = 62 then
          let p := p.dropWhile (· = 32)
          cliParseLoop n (p.dropWhile fun c => !isBlank c).tail
            { cmd with outputRedirect := some (p.takeWhile fun c => !isBlank c) }
        else if c = 124 then { cmd with pipeTo := some (p.dropWhile (· = 32)) }
        else
          cliParseLoop n ((c :: p).dropWhile fun c => !endsToken c).tail
            { cmd with argv := cmd.argv ++ [(c :: p).takeWhile fun c => !endsToken c] }

/-- `cli_parse_command`, `none` for a syntax error. -/
def cliParseCommand (input : List UInt8) : Option ParsedCommand :=
  let command := cStr (cliStrcpy (List.replicate cliMaxInputLen 0) input cliMaxInputLen)
  let cmd := cliParseLoop command.length command ParsedCommand.empty
  if cmd.argc = 0 then none else some cmd

/-! ## Lists of commands -/

/-- `CLI_MAX_SEGMENTS`. -/
def cliMaxSegments : ℕ := 16

/-- `CliSep`. -/
inductive CliSep where
  | none
  | seq
  | and
  | or
deriving DecidableEq

/-- The separator at the character `c` in front of `p`, and whether it is two characters. -/
def cliSepAt (c : UInt8) (p : List UInt8) : Option (CliSep × Bool) :=
  if c = 59 then some (.seq, false)
  else if c = 38 ∧ p.head? = some 38 then some (.and, true)
  else if c = 124 ∧ p.head? = some 124 then some (.or, true)
  else none

/-- The segments of a line with the separators in front of them : the characters `seg` of the
current one are read, it is number `nseg`, and `skip` is the second character of a separator. -/
def cliSplit (inQuote skip : Bool) (nseg : ℕ) (pre : CliSep) (seg : List UInt8) :
    List UInt8 → List (CliSep × List UInt8)
  | [] => [(pre, seg)]
  | c :: p =>
    if skip then cliSplit inQuote false nseg pre seg p
    else if c = 34 then cliSplit (!inQuote) false nseg pre (seg ++ [c]) p
    else if inQuote then cliSplit inQuote false nseg pre (seg ++ [c]) p
    else
      match cliSepAt c p with
      | some (sep, two) =>
        if nseg < cliMaxSegments then (pre, seg) :: cliSplit false two (nseg + 1) sep [] p
        else [(pre, seg ++ c :: p)]
      | none => cliSplit inQuote false nseg pre (seg ++ [c]) p

/-! ## Commands -/

/-- `CLI_PRIV_ROOT`. -/
def cliPrivRoot : UInt8 := 0

/-- `CLI_PRIV_ADMIN`. -/
def cliPrivAdmin : UInt8 := 50

/-- `CLI_PRIV_USER`. -/
def cliPrivUser : UInt8 := 100

/-- The handler of a builtin command; `other` is one that the environment answers for. -/
inductive CliCommandHandler where
  | echo
  | login
  | su
  | logout
  | ls
  | cat
  | write
  | append
  | rm
  | grep
  | wc
  | other
deriving DecidableEq

/-- `CliBuiltinCommand`. -/
structure CliBuiltinCommand where
  name : List UInt8
  handler : CliCommandHandler
  minPrivilege : UInt8
deriving DecidableEq

/-- `BUILTIN_COMMANDS`. -/
def builtinCommands : List CliBuiltinCommand :=
  [⟨utf8 "help", .other, cliPrivUser⟩, ⟨utf8 "clear", .other, cliPrivUser⟩,
   ⟨utf8 "info", .other, cliPrivUser⟩, ⟨utf8 "exit", .other, cliPrivUser⟩,
   ⟨utf8 "whoami", .other, cliPrivUser⟩, ⟨utf8 "ver", .other, cliPrivUser⟩,
   ⟨utf8 "ps", .other, cliPrivUser⟩, ⟨utf8 "echo", .echo, cliPrivUser⟩,
   ⟨utf8 "shutdown", .other, cliPrivRoot⟩, ⟨utf8 "restart", .other, cliPrivRoot⟩,
   ⟨utf8 "ai", .other, cliPrivAdmin⟩, ⟨utf8 "policy", .other, cliPrivRoot⟩,
   ⟨utf8 "login", .login, cliPrivUser⟩, ⟨utf8 "su", .su, cliPrivUser⟩,
   ⟨utf8 "logout", .logout, cliPrivUser⟩, ⟨utf8 "users", .other, cliPrivAdmin⟩,
   ⟨utf8 "test", .other, cliPrivRoot⟩, ⟨utf8 "auditlog", .other, cliPrivAdmin⟩,
   ⟨utf8 "log", .other, cliPrivAdmin⟩, ⟨utf8 "ls", .ls, cliPrivUser⟩,
   ⟨utf8 "cat", .cat, cliPrivUser⟩, ⟨utf8 "write", .write, cliPrivUser⟩,
   ⟨utf8 "append", .append, cliPrivUser⟩, ⟨utf8 "rm", .rm, cliPrivAdmin⟩,
   ⟨utf8 "mkdir", .other, cliPrivUser⟩, ⟨utf8 "exec", .other, cliPrivUser⟩,
   ⟨utf8 "date", .other, cliPrivUser⟩, ⟨utf8 "uptime", .other, cliPrivUser⟩,
   ⟨utf8 "lspci", .other, cliPrivUser⟩, ⟨utf8 "ahci", .other, cliPrivUser⟩,
   ⟨utf8 "nvme", .other, cliPrivUser⟩, ⟨utf8 "ping", .other, cliPrivUser⟩,
   ⟨utf8 "kill", .other, cliPrivUser⟩, ⟨utf8 "grep", .grep, cliPrivUser⟩,
   ⟨utf8 "wc", .wc, cliPrivUser⟩, ⟨utf8 "usockbind", .other, cliPrivAdmin⟩,
   ⟨utf8 "usocksend", .other, cliPrivUser⟩, ⟨utf8 "usockrecv", .other, cliPrivUser⟩,
   ⟨utf8 "usockclose", .other, cliPrivAdmin⟩, ⟨utf8 "dlopen", .other, cliPrivAdmin⟩,
   ⟨utf8 "dlsym", .other, cliPrivUser⟩, ⟨utf8 "dlcall", .other, cliPrivUser⟩,
   ⟨utf8 "dlclose", .other, cliPrivAdmin⟩, ⟨utf8 "dllist", .other, cliPrivUser⟩,
   ⟨utf8 "chmod", .other, cliPrivUser⟩, ⟨utf8 "chown", .other, cliPrivRoot⟩,
   ⟨utf8 "sync", .other, cliPrivUser⟩, ⟨utf8 "tcphandshake", .other, cliPrivUser⟩,
   ⟨utf8 "tcpaccept", .other, cliPrivUser⟩, ⟨utf8 "fatmount", .other, cliPrivUser⟩,
   ⟨utf8 "fatls", .other, cliPrivUser⟩, ⟨utf8 "fatcat", .other, cliPrivUser⟩,
   ⟨utf8 "ext2mount", .other, cliPrivUser⟩, ⟨utf8 "ext2ls", .other, cliPrivUser⟩,
   ⟨utf8 "ext2cat", .other, cliPrivUser⟩, ⟨utf8 "tcpstat", .other, cliPrivUser⟩,
   ⟨utf8 "tcpsend", .other, cliPrivUser⟩, ⟨utf8 "tcprecv", .other, cliPrivUser⟩,
   ⟨utf8 "tcpclose", .other, cliPrivUser⟩, ⟨utf8 "winmove", .other, cliPrivUser⟩,
   ⟨utf8 "udpbind", .other, cliPrivUser⟩, ⟨utf8 "udpsend", .other, cliPrivUser⟩,
   ⟨utf8 "udprecv", .other, cliPrivUser⟩, ⟨utf8 "udpclose", .other, cliPrivUser⟩,
   ⟨utf8 "dhcp", .other, cliPrivUser⟩, ⟨utf8 "nslookup", .other, cliPrivUser⟩,
   ⟨utf8 "perf", .other, cliPrivUser⟩, ⟨utf8 "console", .other, cliPrivUser⟩,
   ⟨utf8 "slots", .other, cliPrivUser⟩]

/-- `cli_find_builtin`. -/
def cliFindBuiltin (name : List UInt8) : Option CliBuiltinCommand :=
  builtinCommands.find? fun b => b.name = name

/-- `cli_command_pipe_safe`. -/
def cliCommandPipeSafe (name : List UInt8) : Bool :=
  !([utf8 "ps", utf8 "shutdown", utf8 "restart", utf8 "clear", utf8 "login", utf8 "su",
    utf8 "logout", utf8 "exec"].contains name)

/-! ## State -/

/-- `CliSession`, without its number, its time and the process it runs. A privilege is one of
`CliPrivilegeLevel` or of a user record. -/
structure CliSession where
  uid : UInt32
  username : CliName
  privilege : UInt8
  commandsExecuted : ℕ
  isActive : Bool

/-- What a line can reach : the session, the users, the access rules, the files, the keys that
were typed and not read yet, and the buffers of the shell. `screen` is all text printed. -/
structure Shell where
  session : CliSession
  db : UserDb
  engine : AiEngine
  fs : VernisFs
  keys : List UInt8
  captureActive : Bool
  captureEcho : Bool
  captureBuf : List UInt8
  pipeInput : List UInt8
  psGuiLive : Bool
  screen : List UInt8

/-- What a handler of another module did : the value it returned, `none` if it does not
return, the text it printed and the state it left. -/
structure OtherEffect where
  status : Option Int
  printed : List UInt8
  isActive : Bool
  engine : AiEngine
  fs : VernisFs
  keys : List UInt8
  psGuiLive : Bool

/-- Everything outside the shell : the two other volumes and `/proc`, the directories on the
volumes, what the local array `saved_name` of `su` happens to hold, and the other handlers.
`commandsExecuted` tells two calls of one handler apart. -/
structure CliEnv where
  kfs : KfsEnv
  listMounted : List UInt8 → Option (List (List UInt8))
  savedName : Shell → CliName
  other : List UInt8 → ParsedCommand → Shell → OtherEffect

/-- What is recorded of a line. -/
inductive ShellEvent where
  /-- The handler of `b` was called in the state `s`; `under` is the state in which the
  outermost `su` around it was. -/
  | ran (b : CliBuiltinCommand) (cmd : ParsedCommand) (s : Shell) (under : Option Shell)
  /-- The `su` called in the state `s` ran its sub-command in the state `as`. -/
  | subCommand (s as : Shell)

/-- The event with the `su` in whose sub-command it happened. -/
def ShellEvent.within (s : Shell) : ShellEvent → ShellEvent
  | .ran b cmd t _ => .ran b cmd t (some s)
  | .subCommand t as => .subCommand t as

/-- A part of the shell program. -/
abbrev ShellProg := Traced.Prog Shell ShellEvent

namespace Shell

/-- `cli_write_raw`. -/
def writeRaw (text : List UInt8) (s : Shell) : Shell :=
  { s with
    captureBuf := if s.captureActive then (s.captureBuf ++ text).take 8191 else s.captureBuf
    screen := if !s.captureActive || s.captureEcho then s.screen ++ text else s.screen }

/-- Replace the session. -/
def setSession (session : CliSession) (s : Shell) : Shell :=
  { s with session := session }

/-- Replace the files. -/
def setFs (fs : VernisFs) (s : Shell) : Shell :=
  { s with fs := fs }

/-- `cli_capture_begin(0)`. -/
def captureBegin (s : Shell) : Shell :=
  { s with captureActive := true, captureEcho := false, captureBuf := [] }

/-- `cli_capture_end`. -/
def captureEnd (s : Shell) : Shell :=
  { s with captureActive := false, captureEcho := true }

/-- `cli_pipe_set_input`, and `cli_pipe_clear_input` with no text. -/
def pipeSetInput (text : List UInt8) (s : Shell) : Shell :=
  { s with pipeInput := text.take 8191 }

end Shell

/-- `cli_printf`, with the text that its format comes to. -/
def cliPrint (text : List UInt8) : ShellProg Unit :=
  Traced.update (Shell.writeRaw text)

/-- `%d` and `%u`. -/
def cliDec (n : Int) : List UInt8 :=
  (if n < 0 then [45] else []) ++ (Nat.toDigits 10 n.natAbs).map asciiByte

/-- `%u` with a width : blanks on the left. -/
def cliFieldD (n : Int) (width : ℕ) : List UInt8 :=
  List.replicate (width - (cliDec n).length) 32 ++ cliDec n

/-- `%-s` with a width : cut off, and blanks on the right. -/
def cliFieldS (text : List UInt8) (width : ℕ) : List UInt8 :=
  text.take width ++ List.replicate (width - text.length) 32

end VernisOS
