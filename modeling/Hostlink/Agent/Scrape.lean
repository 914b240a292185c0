import Hostlink.Lib.GoStrings
import Hostlink.Agent.Upload

/-! `metrics.scrape` on the agent: the configured exporters are fetched one after the other, and each
exposition leaves in chunks that a frame with `done` ends. -/

namespace Hostlink.Agent

def flagScrapeTargets : String := "scrape-targets"
def scrapeMaxBodySize : Nat := 16 * 1024 * 1024
def defaultScrapePath : String := "/metrics"

structure ScrapeTargetConfig where
  name : String
  url : String
  path : String := ""
  deriving DecidableEq, Repr

/-- `url.URL`; what `resolveScrapeTarget` does not look at is in `rest`. -/
structure Url where
  scheme : String
  host : String
  path : String
  rawPath : String := ""
  rest : String := ""
  deriving DecidableEq, Repr

/-- `url.Parse`, `URL.String` and the quotes that `%q` puts around a text. -/
structure UrlLib where
  parse : String → Except GoError Url
  string : Url → String
  quote : String → String

/-- All TCP targets share one client. -/
inductive HttpClient where
  | tcp
  | unix (socket : String)
  deriving DecidableEq, Repr

structure ScrapeTarget where
  name : String
  reqUrl : String
  client : HttpClient
  deriving DecidableEq, Repr

section Resolve
variable (lib : UrlLib)

def targetError (cfg : ScrapeTargetConfig) (text : String) : GoError :=
  .new ("agent: " ++ flagScrapeTargets ++ " " ++ lib.quote cfg.name ++ ": " ++ text)

def resolveScrapeTarget (cfg : ScrapeTargetConfig) : Except GoError ScrapeTarget :=
  if cfg.name = "" then
    .error (.new ("agent: " ++ flagScrapeTargets ++ ": a target name must not be empty"))
  else if cfg.path ≠ "" ∧ ¬ GoStrings.hasPrefix cfg.path "/" then
    .error (targetError lib cfg "path must start with '/'")
  else if cfg.url = "" then .error (targetError lib cfg "url is required")
  else match lib.parse cfg.url with
    | .error err =>
      .error (.wrap ("agent: " ++ flagScrapeTargets ++ " " ++ lib.quote cfg.name ++ ": invalid url") err)
    | .ok u =>
      if u.scheme = "http" ∨ u.scheme = "https" then
        if u.host = "" then
          .error (targetError lib cfg (u.scheme ++ " url must include a host, as " ++ u.scheme ++
            "://host:port[/path]"))
        else
          let u := if cfg.path ≠ "" then { u with path := cfg.path, rawPath := "" }
            else if u.path = "" then { u with path := defaultScrapePath }
            else u
          .ok ⟨cfg.name, lib.string u, .tcp⟩
      else if u.scheme = "unix" then
        if u.host ≠ "" then
          .error (targetError lib cfg
            "unix url host must be empty, as unix:///path/to.sock (three slashes)")
        else if u.path = "" then
          .error (targetError lib cfg "unix url must include the socket path, as unix:///path/to.sock")
        else
          .ok ⟨cfg.name, "http://unix" ++ (if cfg.path = "" then defaultScrapePath else cfg.path),
            .unix u.path⟩
      else .error (targetError lib cfg "url scheme must be http, https, or unix")

def resolveScrapeTargets (configs : List ScrapeTargetConfig) : Except GoError (List ScrapeTarget) :=
  configs.mapM (resolveScrapeTarget lib)

end Resolve

structure MetricsFrame where
  exporter : String
  chunk : Bytes := []
  done : Bool := false
  error : String := ""
  deriving DecidableEq, Repr

structure BodyRead where
  data : Bytes
  err : Option GoError := none
  ctxErr : Bool := false
  deriving DecidableEq, Repr

inductive Fetch where
  | requestErr (err : GoError)
  | doErr (err : GoError)
  | response (status : Nat) (reads : List BodyRead)
  deriving DecidableEq, Repr

/-- The loop over the body, once `total` bytes are read: the frames, and whether the context ended it. -/
def streamBody (exporter : String) (total : Nat) : List BodyRead → List MetricsFrame × Bool
  | [] => ([], false)
  | read :: reads =>
    let total := total + read.data.length
    if read.data ≠ [] ∧ total > scrapeMaxBodySize then
      ([{ exporter := exporter, done := true, error := "exposition exceeds size limit" }], false)
    else
      let chunk : List MetricsFrame :=
        if read.data ≠ [] then [{ exporter := exporter, chunk := read.data }] else []
      match read.err with
      | some err =>
        (chunk ++ [{ exporter := exporter, done := true
                     error := if err.is .eof then "" else err.text }], false)
      | none =>
        if read.ctxErr then (chunk, true)
        else
          let r := streamBody exporter total reads
          (chunk ++ r.1, r.2)

def streamTarget (target : ScrapeTarget) : Fetch → List MetricsFrame × Bool
  | .requestErr err | .doErr err =>
    ([{ exporter := target.name, done := true, error := err.text }], false)
  | .response status reads =>
    if status ≠ 200 then
      ([{ exporter := target.name, done := true
          error := "unexpected status " ++ Strconv.formatUint status ++ " from " ++ target.reqUrl }],
        false)
    else streamBody target.name 0 reads

/-- One turn of the loop over the targets: whether the context is done at its head, and the fetch. -/
structure TargetTurn where
  ctxErr : Bool := false
  fetch : Fetch
  deriving DecidableEq, Repr

def scrapeFrames : List (ScrapeTarget × TargetTurn) → List MetricsFrame
  | [] => []
  | (target, turn) :: turns =>
    if turn.ctxErr then []
    else
      let r := streamTarget target turn.fetch
      r.1 ++ if r.2 then [] else scrapeFrames turns

end Hostlink.Agent
