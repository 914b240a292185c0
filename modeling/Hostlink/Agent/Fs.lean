import Hostlink.Lib.PosixCalls
import Hostlink.Lib.Prog
import Hostlink.Agent.ReadFile

/-! The `fs` methods of the agent, as programs that call the operating system by paths. Modification
times are left out. -/

namespace Hostlink.Agent.Fs
open Posix (Path Tree Errno)

abbrev Payload := Except GoError String

structure FileInfo where
  name : String
  dir : Bool
  size : Nat
  deriving DecidableEq, Repr

inductive OsCmd where
  | stat (path : String)
  | readDir (path : String)
  | open (path : String)
  | mkdirAll (path : String)
  | openFile (path : String) (exclusive : Bool)
  | write (file : Path) (data : Bytes)
  | remove (path : String)
  | removeAll (path : String)
  deriving DecidableEq, Repr

def OsCmd.Reply : OsCmd → Type
  | .stat _ => Except GoError FileInfo
  | .readDir _ => Except GoError (List FileInfo)
  | .open _ => Except GoError (FileInfo × Bytes)
  | .openFile _ _ => Except GoError Path
  | .mkdirAll _ | .write _ _ | .remove _ | .removeAll _ => Except GoError Unit

/-! ### The paths -/

/-- `filepath.ToSlash` and `filepath.FromSlash` change nothing where the separator is a slash. -/
def resolve (dataDir rel : String) : Except GoError String :=
  if dataDir = "" then .error errFsNotConfigured
  else
    let full := GoPath.join dataDir (GoPath.clean ("/" ++ rel))
    if full ≠ dataDir ∧ ¬ (dataDir ++ "/").toList.isPrefixOf full.toList then .error errPathEscapes
    else .ok full

/-- What `resolveDataDir` makes of the answer to `os.Stat`; `quote` are the quotes of `%q`. -/
def checkDataDir (quote : String → String) (dir : String) : Except GoError FileInfo → Except GoError String
  | .error err => .error (.wrap ("agent: stat data dir " ++ quote dir) err)
  | .ok info =>
    if info.dir then .ok dir
    else .error (.new ("agent: data dir " ++ quote dir ++ " is not a directory"))

/-- `filepath.Abs`, where `wd` is what `os.Getwd` returns. -/
def absPath (wd : Except GoError String) (path : String) : Except GoError String :=
  if GoPath.isAbs path then .ok (GoPath.clean path) else wd.map fun wd => GoPath.join wd path

def resolveDataDir (quote : String → String) (wd : Except GoError String) (configured : String) :
    Prog OsCmd.Reply (Except GoError String) :=
  if configured = "" then .ret (.ok "")
  else match absPath wd configured with
    | .error err => .ret (.error (.wrap ("agent: resolve data dir " ++ quote configured) err))
    | .ok dir => .call (.stat dir) fun answer => .ret (checkDataDir quote dir answer)

/-! ### The methods -/

structure FsReply where
  code : Nat
  error : String := ""
  entries : List FileInfo := []
  deriving DecidableEq, Repr

def fail (err : GoError) : FsReply := { code := fsErrorCode err, error := err.text }

def onPath (method dataDir : String) (payload : Payload)
    (go : String → Prog OsCmd.Reply FsReply) : Prog OsCmd.Reply FsReply :=
  match payload with
  | .error err =>
    .ret { code := 400, error := "invalid " ++ method ++ " payload: " ++ err.text }
  | .ok path =>
    match resolve dataDir path with
    | .error err => .ret (fail err)
    | .ok full => go full

def statPath (dataDir : String) (payload : Payload) : Prog OsCmd.Reply FsReply :=
  onPath "fs.stat" dataDir payload fun full =>
    .call (.stat full) fun
      | .error err => .ret (fail err)
      | .ok info => .ret { code := 200, entries := [info] }

def listDir (dataDir : String) (payload : Payload) : Prog OsCmd.Reply FsReply :=
  onPath "fs.list" dataDir payload fun full =>
    .call (.readDir full) fun
      | .error err => .ret (fail err)
      | .ok entries => .ret { code := 200, entries := entries }

def mkdir (dataDir : String) (payload : Payload) : Prog OsCmd.Reply FsReply :=
  onPath "fs.mkdir" dataDir payload fun full =>
    .call (.stat full) fun
      | .ok _ => .ret { code := 409, error := "path already exists" }
      | .error err =>
        if err.is errNotExist then
          .call (.mkdirAll full) fun
            | .error err => .ret (fail err)
            | .ok _ => .ret { code := 201 }
        else .ret (fail err)

def remove (dataDir : String) (payload : Payload) : Prog OsCmd.Reply FsReply :=
  onPath "fs.remove" dataDir payload fun full =>
    if full = dataDir then .ret { code := 400, error := "cannot remove the working directory root" }
    else .call (.stat full) fun
      | .error err => .ret (fail err)
      | .ok _ => .call (.removeAll full) fun
        | .error err => .ret (fail err)
        | .ok _ => .ret { code := 204 }

/-- `readFile` up to the loop that sends the file. -/
def readFile (dataDir : String) (payload : Payload) (turns : List ReadTurn) :
    Prog OsCmd.Reply ReadRun :=
  match payload with
  | .error err => .ret (Agent.readFile { decodeErr := some err } [] turns)
  | .ok path =>
    match resolve dataDir path with
    | .error err => .ret (Agent.readFile { resolveErr := some err } [] turns)
    | .ok full => .call (.open full) fun
      | .error err => .ret (Agent.readFile { openErr := some err } [] turns)
      | .ok (info, content) => .ret (Agent.readFile { isDir := info.dir } content turns)

/-- What `consumeUpload` meets; `fault` is an error of `f.Write` after some bytes. -/
inductive UploadTurn where
  | ctxDone (err : GoError)
  | idle
  | chunk (chunk : UploadChunk) (fault : Option (Nat × GoError)) (syncErr : Option GoError)
  deriving DecidableEq, Repr

/-- A chunk that is written: the upload is committed with the last one. -/
def uploadNext (chunk : UploadChunk) (syncErr : Option GoError)
    (more : Prog OsCmd.Reply (Bool × FsReply)) : Prog OsCmd.Reply (Bool × FsReply) :=
  if chunk.last then
    match syncErr with
    | some err => .ret (false, fail err)
    | none => .ret (true, { code := 201 })
  else more

/-- The idle timer fires if nothing else comes. -/
def consumeUpload (file : Path) : List UploadTurn → Prog OsCmd.Reply (Bool × FsReply)
  | [] | .idle :: _ =>
    .ret (false, { code := 408, error := "upload stalled: no data within idle timeout" })
  | .ctxDone err :: _ => .ret (false, { code := 500, error := err.text })
  | .chunk chunk fault syncErr :: turns =>
    if chunk.data = [] then uploadNext chunk syncErr (consumeUpload file turns)
    else match fault with
      | some (n, err) => .call (.write file (chunk.data.take n)) fun _ => .ret (false, fail err)
      | none =>
        .call (.write file chunk.data) fun _ => uploadNext chunk syncErr (consumeUpload file turns)

/-- The part of `writeFile` that opens the file; what an upload left that failed is removed. -/
def openUpload (full : String) (exclusive : Bool) (turns : List UploadTurn) :
    Prog OsCmd.Reply FsReply :=
  .call (.openFile full exclusive) fun
    | .error err => .ret (fail err)
    | .ok file => consumeUpload file turns >>= fun r =>
      if r.1 then .ret r.2 else .call (.remove full) fun _ => .ret r.2

def storeUpload (full : String) (exclusive : Bool) (turns : List UploadTurn) :
    Prog OsCmd.Reply FsReply :=
  .call (.mkdirAll (GoPath.dir full)) fun
    | .error err => .ret (fail err)
    | .ok _ => openUpload full exclusive turns

def writeFile (dataDir : String) (payload : Payload) (exclusive : Bool) (turns : List UploadTurn) :
    Prog OsCmd.Reply FsReply :=
  onPath "fs.write" dataDir payload fun full => storeUpload full exclusive turns

/-! ### The operating system -/

def osError (op path : String) (err : Errno) : GoError :=
  .wrap (op ++ " " ++ path) <| match err with
    | .noent => errNotExist
    | .exist => errExist
    | .notdir => .new "not a directory"
    | .isdir => .new "is a directory"
    | .notempty => .new "directory not empty"
    | .loop => .new "too many levels of symbolic links"

def fileInfo (t : Tree) (name : String) (p : Path) : FileInfo :=
  match t.get p with
  | some (.file content) => ⟨name, false, content.length⟩
  | some (.link target) => ⟨name, false, target.length⟩
  | _ => ⟨name, true, 0⟩

def base (names : List (List Char)) : String := String.ofList (names.getLast?.getD ['/'])

def content (t : Tree) (p : Path) : Bytes :=
  match t.get p with
  | some (.file content) => content
  | _ => []

structure OsState where
  tree : Tree
  touched : List Path := []

def OsState.touch (s : OsState) (paths : List Path) : OsState :=
  { s with touched := s.touched ++ paths }

def OsState.after {α : Type} (s : OsState) (e : Posix.Effect α) : OsState :=
  ⟨e.tree, s.touched ++ e.touched⟩

def OsState.reading {α : Type} (s : OsState) (op path : String)
    (read : Path → Except Errno α × List Path) : Except GoError α × OsState :=
  match Posix.resolve s.tree path.toList with
  | .error err => (.error (osError op path err), s)
  | .ok p => ((read p).1.mapError (osError op path), s.touch (read p).2)

def OsState.exec (s : OsState) : (c : OsCmd) → c.Reply × OsState
  | .stat path => s.reading "stat" path fun p =>
      (.ok (fileInfo s.tree (base (GoPath.components path.toList)) p), [p])
  | .readDir path => s.reading "open" path fun p =>
      if s.tree.get p = some .dir then
        (.ok ((Posix.children s.tree p).map fun q => fileInfo s.tree (base q) q),
          p :: Posix.children s.tree p)
      else (.error .notdir, [p])
  | .open path => s.reading "open" path fun p =>
      (.ok (fileInfo s.tree (base (GoPath.components path.toList)) p, content s.tree p), [p])
  | .mkdirAll path =>
    let e := Posix.mkdirAll s.tree (GoPath.components path.toList).reverse
    (e.reply.mapError (osError "mkdir" path), s.after e)
  | .openFile path exclusive =>
    let e := Posix.create s.tree exclusive path.toList
    (e.reply.mapError (osError "open" path), s.after e)
  | .write file data => (.ok (), s.after (Posix.append s.tree file data))
  | .remove path =>
    let e := Posix.remove s.tree path.toList
    (e.reply.mapError (osError "remove" path), s.after e)
  | .removeAll path =>
    let e := Posix.removeAll s.tree path.toList
    (e.reply.mapError (osError "unlinkat" path), s.after e)

inductive FsRequest where
  | stat (payload : Payload)
  | list (payload : Payload)
  | read (payload : Payload) (turns : List ReadTurn)
  | write (payload : Payload) (exclusive : Bool) (turns : List UploadTurn)
  | mkdir (payload : Payload)
  | remove (payload : Payload)

def FsRequest.serve (dataDir : String) (t : Tree) : FsRequest → OsState
  | .stat payload => ((statPath dataDir payload).eval OsState.exec ⟨t, []⟩).2
  | .list payload => ((listDir dataDir payload).eval OsState.exec ⟨t, []⟩).2
  | .read payload turns => ((readFile dataDir payload turns).eval OsState.exec ⟨t, []⟩).2
  | .write payload exclusive turns =>
    ((writeFile dataDir payload exclusive turns).eval OsState.exec ⟨t, []⟩).2
  | .mkdir payload => ((Fs.mkdir dataDir payload).eval OsState.exec ⟨t, []⟩).2
  | .remove payload => ((Fs.remove dataDir payload).eval OsState.exec ⟨t, []⟩).2

end Hostlink.Agent.Fs
