import VernisOS.Cli
import VernisOS.VernisFsMount

/-!
# The builtin commands

`kernel/shell/cli.c` : the handlers that look at who the user is or show the bytes of a file,
and the access check of `kernel/security/policy_enforce.c`. What a handler prints is one text;
a handler of another module is the `other` of the environment.
-/

open Bytes

namespace VernisOS

/-! ## Access rules -/

/-- `policy_map_privilege`. -/
def policyMapPrivilege (policyPriv : UInt8) : UInt8 :=
  if policyPriv = 0 then 0
  else if policyPriv = 1 then 50
  else if policyPriv = 2 then 100
  else 0

/-- `policy_check_command`. -/
def policyCheckCommand (e : AiEngine) (command : List UInt8) (privilege : UInt8) : Bool :=
  if command.length = 0 then false
  else
    let cmdLen := (command.takeWhile (· ≠ 32)).length
    let fullCmdLen :=
      if cmdLen < command.length then
        cmdLen + 1 + ((command.drop (cmdLen + 1)).takeWhile (· ≠ 32)).length
      else cmdLen
    let required := e.aiEngineCheckAccess (command.take fullCmdLen)
    let required :=
      if required = 255 ∧ fullCmdLen ≠ cmdLen then e.aiEngineCheckAccess (command.take cmdLen)
      else required
    if required = 255 then true else privilege ≤ policyMapPrivilege required

/-! ## Directory lists -/

/-- The names `kfs_list_dir` adds to those of VernisFS. -/
def kfsListPseudo (dir : List UInt8) : List (List UInt8) :=
  if dir = [47] then [pathProc, pathDev, pathMnt]
  else if dir = pathProc then [pathProcUptime, pathProcPs, pathProcFs]
  else if dir = pathDev then [pathDevNull, pathDevZero]
  else if dir = pathMnt then [kfsMntFat32, kfsMntExt2]
  else []

/-- `kfs_list_dir`, `none` for -1. -/
def kfsListDir (env : CliEnv) (fs : VernisFs) (dir : CStr) (max : ℕ) :
    Option (List (List UInt8)) :=
  if (kfsMountSubpath dir.chars kfsMntFat32).isSome ||
      (kfsMountSubpath dir.chars kfsMntExt2).isSome then
    (env.listMounted dir.chars).map fun names => names.take max
  else some (((fs.vfsListDir dir max).2.map cStr ++ kfsListPseudo dir.chars).take max)

/-! ## Return codes -/

/-- `CLI_OK`. -/
def cliOk : Int := 0

/-- `CLI_ERR_UNKNOWN_CMD`. -/
def cliErrUnknownCmd : Int := -1

/-- `CLI_ERR_SYNTAX`. -/
def cliErrSyntax : Int := -2

/-- `CLI_ERR_NO_PERMISSION`. -/
def cliErrNoPermission : Int := -3

/-- `CLI_ERR_EXEC_FAILED`. -/
def cliErrExecFailed : Int := -4

/-- Print a text and return. -/
def cliReply (text : List UInt8) (rc : Int) : ShellProg Int := do
  cliPrint text
  return rc

/-! ## Passwords -/

/-- The loop of `cli_read_password` into a `char[64]` : the password, `none` while it waits for
a key, the keys left and what is printed. -/
def cliReadKeys (buf printed : List UInt8) :
    List UInt8 → Option (List UInt8) × List UInt8 × List UInt8
  | [] => (if buf.length < 63 then none else some buf, [], printed)
  | c :: keys =>
    if 63 ≤ buf.length then (some buf, c :: keys, printed)
    else if c = 10 ∨ c = 13 then (some buf, keys, printed ++ utf8 "\n")
    else if c = 8 ∨ c = 0x7F then
      if buf = [] then cliReadKeys buf printed keys
      else cliReadKeys buf.dropLast (printed ++ [8, 32, 8]) keys
    else if c < 0x20 ∨ 0x80 ≤ c then cliReadKeys buf printed keys
    else cliReadKeys (buf ++ [c]) (printed ++ utf8 "*") keys

/-- The password that these keys type. -/
def typedPassword (keys : List UInt8) : Option (List UInt8) :=
  (cliReadKeys [] [] keys).1

/-- `cli_read_password`. -/
def cliReadPassword : ShellProg (List UInt8) := do
  let s ← Traced.state
  let r := cliReadKeys [] [] s.keys
  Traced.update fun s => { s with keys := r.2.1 }
  cliPrint r.2.2
  match r.1 with
  | none => Traced.stuck
  | some password => return password

/-! ## Users -/

/-- The end of `cli_cmd_login` : switch the session to the user. -/
def cliSwitchUser (username : List UInt8) (user : UserRecord) : ShellProg Int := do
  Traced.update fun s => s.setSession { s.session with
    username := s.session.username.strcpy username
    privilege := user.privilege
    uid :=
      match s.db.findUid username with
      | some uid => UInt32.ofNat uid
      | none => s.session.uid }
  cliReply (utf8 "Logged in as " ++ username ++ utf8 "\n") cliOk

/-- `cli_cmd_login`. -/
def cliCmdLogin (cmd : ParsedCommand) : ShellProg Int := do
  let s ← Traced.state
  if cmd.argc < 2 then cliReply (utf8 "Usage: login <username>\n") cliOk
  else
    match s.db.findUser (cmd.arg 1) with
    | none => cliReply (utf8 "Unknown user: " ++ cmd.arg 1 ++ utf8 "\n") cliOk
    | some user =>
      if !user.active then cliReply (utf8 "Account disabled\n") cliOk
      else if user.locked then cliReply (utf8 "Account locked\n") cliOk
      else if user.noPassword then cliSwitchUser (cmd.arg 1) user
      else do
        cliPrint (utf8 "Password: ")
        let password ← cliReadPassword
        if password.length = 0 then cliReply (utf8 "Login cancelled\n") cliOk
        else if s.db.authenticate (cmd.arg 1) password < 0 then
          cliReply (utf8 "Authentication failed\n") cliOk
        else cliSwitchUser (cmd.arg 1) user

/-- The sub-command of a `su` that was called in the state `before`. -/
def cliSubCommand (exec : ParsedCommand → ShellProg Int) (before : Shell) (cmd : ParsedCommand)
    (onError : Int) : ShellProg Int :=
  match cliParseCommand (cliJoinArgs (cmd.argv.drop 1) cliMaxInputLen) with
  | none => pure onError
  | some sub => do
    let s ← Traced.state
    Traced.record (.subCommand before s)
    Traced.relabel (ShellEvent.within before) (exec sub)

/-- The end of `cli_cmd_su` : the sub-command as root, and the session restored. -/
def cliElevate (env : CliEnv) (exec : ParsedCommand → ShellProg Int) (before : Shell)
    (cmd : ParsedCommand) : ShellProg Int := do
  let s ← Traced.state
  let savedName := (env.savedName s).strcpy s.session.username.str
  Traced.update fun s => s.setSession { s.session with
    privilege := cliPrivRoot
    uid := 0
    username := s.session.username.strcpy strRoot }
  let rc ← cliSubCommand exec before cmd cliOk
  Traced.update fun t => t.setSession { t.session with
    privilege := s.session.privilege
    uid := s.session.uid
    username := t.session.username.strcpy savedName.str }
  return rc

/-- `cli_cmd_su`. -/
def cliCmdSu (env : CliEnv) (exec : ParsedCommand → ShellProg Int) (cmd : ParsedCommand) :
    ShellProg Int := do
  let s ← Traced.state
  if cmd.argc < 2 then
    cliReply (utf8 "Usage: su <command> [args...]\n  Run a command with root privileges\n") cliOk
  else if s.session.privilege = cliPrivRoot then cliSubCommand exec s cmd cliErrSyntax
  else
    match s.db.findUser strRoot with
    | none => cliReply (utf8 "Authentication failed\n") cliOk
    | some root =>
      if !root.active then cliReply (utf8 "Authentication failed\n") cliOk
      else if root.noPassword then cliElevate env exec s cmd
      else do
        cliPrint (utf8 "Password: ")
        let password ← cliReadPassword
        if password.length = 0 then cliReply (utf8 "Cancelled\n") cliOk
        else if s.db.authenticate strRoot password < 0 then
          cliReply (utf8 "Authentication failed\n") cliOk
        else cliElevate env exec s cmd

/-- The session is the default one and its user has no password : `logout` leaves it. -/
def Shell.atDefaultRoot (s : Shell) : Bool :=
  s.session.privilege = cliPrivRoot && (s.db.findUser strRoot).any UserRecord.noPassword

/-- `cli_cmd_logout`. -/
def cliCmdLogout : ShellProg Int := do
  let s ← Traced.state
  if s.atDefaultRoot then cliReply (utf8 "Already at default root session\n") cliOk
  else do
    Traced.update fun s => s.setSession { s.session with
      username := s.session.username.strcpy strRoot
      privilege := cliPrivRoot }
    cliReply (utf8 "Logged out — returned to root\n") cliOk

/-! ## Text -/

/-- The piped text with a newline at its end. -/
def cliPipeText (text : List UInt8) : List UInt8 :=
  if text.getLast? = some 10 then text else text ++ utf8 "\n"

/-- `cli_cmd_echo`. -/
def cliCmdEcho (cmd : ParsedCommand) : ShellProg Int := do
  let s ← Traced.state
  if cmd.argc = 1 ∧ s.pipeInput ≠ [] then cliReply (cliPipeText s.pipeInput) cliOk
  else cliReply ([32].intercalate (cmd.argv.drop 1) ++ utf8 "\n") cliOk

/-- `kfs_read_file` with the file system left behind, `none` for -1. -/
def cliReadFile (env : CliEnv) (path : List UInt8) (maxLen : ℕ) :
    ShellProg (Option (List UInt8)) := do
  let s ← Traced.state
  let r := kfsReadFile env.kfs s.fs (cPath path) maxLen
  Traced.update (Shell.setFs r.2)
  return r.1

/-- `cli_read_text_source` into a buffer of 4096 bytes, `none` for -1. -/
def cliReadTextSource (env : CliEnv) (cmd : ParsedCommand) (i : ℕ) (usage : List UInt8) :
    ShellProg (Option (List UInt8)) := do
  let s ← Traced.state
  if i < cmd.argc then do
    let text ← cliReadFile env (cmd.arg i) 4095
    if text.isNone then cliPrint (cmd.arg 0 ++ utf8 ": " ++ cmd.arg i ++ utf8 ": not found\n")
    return text
  else if s.pipeInput ≠ [] then return some (s.pipeInput.take 4095)
  else do
    cliPrint (utf8 "Usage: " ++ usage ++ utf8 "\n")
    return none

/-- `cli_str_contains`. -/
def cliStrContains (haystack needle : List UInt8) : Bool :=
  needle = [] || haystack.tails.any needle.isPrefixOf

/-- The loop of `cli_cmd_grep` at the characters left, with the characters of the current line :
the lines that contain the pattern. A line of 511 characters ends at the next one, which is
lost. -/
def grepLines (pattern line : List UInt8) : List UInt8 → List (List UInt8)
  | [] => if cliStrContains (cStr line) pattern then [cStr line] else []
  | c :: rest =>
    if c = 13 then grepLines pattern line rest
    else if c = 10 ∨ 511 ≤ line.length then
      (if cliStrContains (cStr line) pattern then [cStr line] else []) ++
        grepLines pattern [] rest
    else grepLines pattern (line ++ [c]) rest

/-- `cli_cmd_grep`. -/
def cliCmdGrep (env : CliEnv) (cmd : ParsedCommand) : ShellProg Int := do
  if cmd.argc < 2 then cliReply (utf8 "Usage: grep <pattern> [path]\n") 1
  else
    match ← cliReadTextSource env cmd 2 (utf8 "grep <pattern> [path]") with
    | none => return 1
    | some text =>
      let matched := grepLines (cmd.arg 1) [] text
      cliReply (matched.flatMap fun line => line ++ utf8 "\n") (if matched = [] then 1 else cliOk)

/-- The words in a text; `inWord` says that the character before it was of a word. -/
def wcWords (inWord : Bool) : List UInt8 → ℕ
  | [] => 0
  | c :: rest =>
    if isBlank c || c = 10 || c = 13 then wcWords false rest
    else (if inWord then 0 else 1) + wcWords true rest

/-- `cli_cmd_wc`. -/
def cliCmdWc (env : CliEnv) (cmd : ParsedCommand) : ShellProg Int := do
  match ← cliReadTextSource env cmd 1 (utf8 "wc [path]") with
  | none => return 1
  | some text =>
    cliReply (cliDec (text.count 10) ++ utf8 " " ++ cliDec (wcWords false text) ++ utf8 " " ++
      cliDec text.length ++ utf8 "\n") cliOk

/-! ## Files -/

/-- The part of a path behind the last '/'. -/
def baseName (path : List UInt8) : List UInt8 :=
  (path.reverse.takeWhile (· ≠ 47)).reverse

/-- The ten characters of a mode. -/
def permText (e : VfsFileEntry) : List UInt8 :=
  let bit (m : UInt16) (c : UInt8) : UInt8 := if e.mode &&& m ≠ 0 then c else 45
  [if e.type = vfsTypeDirectory then 100 else 45,
   bit 0o400 114, bit 0o200 119, bit 0o100 120, bit 0o040 114, bit 0o020 119, bit 0o010 120,
   bit 0o004 114, bit 0o002 119, bit 0o001 120]

/-- The line of `ls` for one name and the entry found under it. -/
def lsLine (longFmt : Bool) (name : List UInt8) : Option VfsFileEntry → List UInt8
  | none => []
  | some e =>
    if longFmt then
      utf8 "  " ++ permText e ++ utf8 " " ++ cliFieldD e.uid.toNat 3 ++ utf8 " " ++
        cliFieldD e.gid.toNat 3 ++ utf8 " " ++ cliFieldD (cInt e.size) 6 ++ utf8 " " ++
        baseName name ++ utf8 "\n"
    else if e.type = vfsTypeDirectory then utf8 "  [dir] " ++ baseName name ++ utf8 "\n"
    else
      utf8 "  [file] " ++ cliFieldS (baseName name) 20 ++ utf8 " " ++ cliDec (cInt e.size) ++
        utf8 " B\n"

/-- `cli_cmd_ls`. -/
def cliCmdLs (env : CliEnv) (cmd : ParsedCommand) : ShellProg Int := do
  let s ← Traced.state
  let args := cmd.argv.drop 1
  let longFmt := args.contains (utf8 "-l")
  let path := ((args.filter fun a => a != utf8 "-l").getLast?).getD (utf8 "/")
  match kfsListDir env s.fs (cPath path) vfsMaxFiles with
  | none => cliReply (utf8 "ls: VernisFS not ready\n") 1
  | some names =>
    cliReply (path ++ utf8 "\n" ++ (names.flatMap fun name =>
      lsLine longFmt name (kfsFindFile env.kfs s.fs (cPath name))) ++
      (if names = [] then utf8 "  (empty)\n" else [])) cliOk

/-- `cli_cmd_cat`. -/
def cliCmdCat (env : CliEnv) (cmd : ParsedCommand) : ShellProg Int := do
  let s ← Traced.state
  if cmd.argc < 2 then
    if s.pipeInput = [] then cliReply (utf8 "Usage: cat <path>\n") 1
    else cliReply (cliPipeText s.pipeInput) cliOk
  else if kfsCheckPerm env.kfs s.fs (cPath (cmd.arg 1)) s.session.uid.toUInt16 'r' < 0 then
    cliReply (utf8 "cat: " ++ cmd.arg 1 ++ utf8 ": permission denied\n") 1
  else
    match ← cliReadFile env (cmd.arg 1) 511 with
    | none => cliReply (utf8 "cat: " ++ cmd.arg 1 ++ utf8 ": not found\n") 1
    | some text => cliReply (cStr text ++ utf8 "\n") cliOk

/-- The file is there and the session may not write to it. -/
def writeDenied (env : CliEnv) (s : Shell) (path : List UInt8) : Bool :=
  (kfsFindFile env.kfs s.fs (cPath path)).isSome &&
    kfsCheckPerm env.kfs s.fs (cPath path) s.session.uid.toUInt16 'w' < 0

/-- The bytes that `write` and `append` are given, by the pipe or by their words. -/
def writeContent (s : Shell) (cmd : ParsedCommand) : Option (List UInt8) :=
  if cmd.argc = 2 ∧ s.pipeInput ≠ [] then some s.pipeInput
  else if cmd.argc < 3 then none
  else some (cliJoinArgs (cmd.argv.drop 2) 256)

/-- `cli_cmd_write`. -/
def cliCmdWrite (env : CliEnv) (cmd : ParsedCommand) : ShellProg Int := do
  let s ← Traced.state
  if cmd.argc < 2 then cliReply (utf8 "Usage: write <path> <content...>\n") 1
  else if writeDenied env s (cmd.arg 1) then
    cliReply (utf8 "write: " ++ cmd.arg 1 ++ utf8 ": permission denied\n") 1
  else
    match writeContent s cmd with
    | none => cliReply (utf8 "Usage: write <path> <content...>\n") 1
    | some content => do
      let r := kfsWriteFile s.fs (cPath (cmd.arg 1)) content
      Traced.update (Shell.setFs r.2)
      if r.1 < 0 then cliReply (utf8 "write: failed\n") 1
      else
        cliReply (utf8 "Wrote " ++ cliDec r.1 ++ utf8 " bytes -> " ++ cmd.arg 1 ++ utf8 "\n") cliOk

/-- `cli_cmd_append`. Where the append has no defined result the command does not return. -/
def cliCmdAppend (env : CliEnv) (cmd : ParsedCommand) : ShellProg Int := do
  let s ← Traced.state
  if cmd.argc < 2 then cliReply (utf8 "Usage: append <path> <content...>\n") 1
  else if writeDenied env s (cmd.arg 1) then
    cliReply (utf8 "append: " ++ cmd.arg 1 ++ utf8 ": permission denied\n") 1
  else
    match writeContent s cmd with
    | none => cliReply (utf8 "Usage: append <path> <content...>\n") 1
    | some content =>
      match kfsAppendFile s.fs (cPath (cmd.arg 1)) content with
      | none => Traced.stuck
      | some r => do
        Traced.update (Shell.setFs r.2)
        if r.1 < 0 then cliReply (utf8 "append: failed\n") 1
        else
          cliReply (utf8 "File " ++ cmd.arg 1 ++ utf8 " now " ++ cliDec r.1 ++ utf8 " bytes\n")
            cliOk

/-- `cli_cmd_rm`. -/
def cliCmdRm (env : CliEnv) (cmd : ParsedCommand) : ShellProg Int := do
  let s ← Traced.state
  if cmd.argc < 2 then cliReply (utf8 "Usage: rm <path>\n") 1
  else if kfsCheckPerm env.kfs s.fs (cPath (cmd.arg 1)) s.session.uid.toUInt16 'w' < 0 then
    cliReply (utf8 "rm: " ++ cmd.arg 1 ++ utf8 ": permission denied\n") 1
  else do
    let r := kfsDeleteFile s.fs (cPath (cmd.arg 1))
    Traced.update (Shell.setFs r.2)
    if r.1 < 0 then cliReply (utf8 "rm: " ++ cmd.arg 1 ++ utf8 ": not found\n") 1
    else cliReply (utf8 "Removed " ++ cmd.arg 1 ++ utf8 "\n") cliOk

/-! ## Calling a command -/

/-- A handler of another module. -/
def cliCmdOther (env : CliEnv) (name : List UInt8) (cmd : ParsedCommand) : ShellProg Int := do
  let s ← Traced.state
  let e := env.other name cmd s
  Traced.update fun s => { s.writeRaw e.printed with
    session := { s.session with isActive := e.isActive }
    engine := e.engine
    fs := e.fs
    keys := e.keys
    psGuiLive := e.psGuiLive }
  match e.status with
  | none => Traced.stuck
  | some rc => return rc

/-- Call a handler; `exec` is `cli_execute_command`, which `su` calls. -/
def CliBuiltinCommand.run (env : CliEnv) (exec : ParsedCommand → ShellProg Int)
    (b : CliBuiltinCommand) (cmd : ParsedCommand) : ShellProg Int :=
  match b.handler with
  | .echo => cliCmdEcho cmd
  | .login => cliCmdLogin cmd
  | .su => cliCmdSu env exec cmd
  | .logout => cliCmdLogout
  | .ls => cliCmdLs env cmd
  | .cat => cliCmdCat env cmd
  | .write => cliCmdWrite env cmd
  | .append => cliCmdAppend env cmd
  | .rm => cliCmdRm env cmd
  | .grep => cliCmdGrep env cmd
  | .wc => cliCmdWc env cmd
  | .other => cliCmdOther env b.name cmd

/-- `cli_execute_single_command`. -/
def cliExecuteSingleCommand (env : CliEnv) (exec : ParsedCommand → ShellProg Int)
    (cmd : ParsedCommand) : ShellProg Int := do
  if cmd.argc = 0 then return cliErrSyntax
  else
    match cliFindBuiltin (cmd.arg 0) with
    | none => cliReply (utf8 "Unknown command: " ++ cmd.arg 0 ++ utf8 "\n") cliErrUnknownCmd
    | some b => do
      let s ← Traced.state
      if b.minPrivilege < s.session.privilege then
        cliReply (utf8 "Permission denied: '" ++ cmd.arg 0 ++
          utf8 "' requires higher privilege\n") cliErrNoPermission
      else if !policyCheckCommand s.engine (cmd.arg 0) s.session.privilege then
        cliReply (utf8 "Policy denied: '" ++ cmd.arg 0 ++ utf8 "' not allowed for " ++
          s.session.username.str ++ utf8 "\n") cliErrNoPermission
      else do
        Traced.update fun s => s.setSession { s.session with
          commandsExecuted := s.session.commandsExecuted + 1 }
        let s ← Traced.state
        Traced.record (.ran b cmd s none)
        b.run env exec cmd

/-- `cli_execute_command`, with `n` calls of it in each other. -/
def cliExecute (env : CliEnv) : ℕ → ParsedCommand → ShellProg Int
  | 0, _ => Traced.stuck
  | n + 1, cmd =>
    if cmd.argc = 0 then pure cliErrSyntax
    else
      match cmd.pipeTo with
      | some (c :: p) =>
        if !cliCommandPipeSafe (cmd.arg 0) then
          cliReply (utf8 "pipe: command '" ++ cmd.arg 0 ++ utf8 "' cannot be piped\n")
            cliErrExecFailed
        else
          match cliParseCommand (c :: p) with
          | none => cliReply (utf8 "pipe: invalid command after '|'\n") cliErrSyntax
          | some next => do
            Traced.update Shell.captureBegin
            let leftRc ← cliExecuteSingleCommand env (cliExecute env n) cmd
            Traced.update Shell.captureEnd
            let s ← Traced.state
            if leftRc ≠ cliOk then cliReply s.captureBuf leftRc
            else do
              Traced.update (Shell.pipeSetInput s.captureBuf)
              let rc ← cliExecute env n next
              Traced.update (Shell.pipeSetInput [])
              return rc
      | _ => cliExecuteSingleCommand env (cliExecute env n) cmd

/-- The characters of a command, with one more for each word and for the pipe. A sub-command
and a command behind a pipe have less. -/
def ParsedCommand.weight (cmd : ParsedCommand) : ℕ :=
  (cmd.argv.map fun a => a.length + 1).sum + (cmd.pipeTo.map fun p => p.length + 1).getD 0

/-- `cli_execute_command`. -/
def cliExecuteCommand (env : CliEnv) (cmd : ParsedCommand) : ShellProg Int :=
  cliExecute env (cmd.weight + 1) cmd

/-! ## Lines -/

/-- `cli_process_single`. -/
def cliProcessSingle (env : CliEnv) (seg : List UInt8) : ShellProg Int :=
  match cliParseCommand seg with
  | none => cliReply (utf8 "Syntax error\n") cliErrSyntax
  | some cmd => cliExecuteCommand env cmd

/-- The second loop of `cli_process_line`, with the status so far. -/
def cliRunSegments (env : CliEnv) (status : Int) : List (CliSep × List UInt8) → ShellProg Int
  | [] => pure status
  | (sep, seg) :: rest =>
    if seg.dropWhile isBlank = [] then cliRunSegments env status rest
    else if sep = .and ∧ status ≠ cliOk then cliRunSegments env status rest
    else if sep = .or ∧ status = cliOk then cliRunSegments env status rest
    else do
      let status ← cliProcessSingle env (seg.dropWhile isBlank)
      cliRunSegments env status rest

/-- The segments of a line, which is copied into a cleared buffer first. -/
def cliSegments (line : List UInt8) : List (CliSep × List UInt8) :=
  cliSplit false false 1 .none []
    (cStr (cliStrcpy (List.replicate cliMaxInputLen 0) line cliMaxInputLen))

/-- `cli_process_line`. -/
def cliProcessLine (env : CliEnv) (line : List UInt8) : ShellProg Int := do
  let s ← Traced.state
  if s.psGuiLive && ([[113], [81]] : List (List UInt8)).contains ((cStr line).dropWhile isBlank)
  then do
    Traced.update fun s => { s with psGuiLive := false }
    cliReply (utf8 "Exited ps realtime mode.\n") cliOk
  else cliRunSegments env cliOk (cliSegments line)

end VernisOS
