import EpollHttpServer.Lib.CString

/-! Constants and records of server.h, and the option loop of main. A configuration that
the loop returns is the one server_run is given. -/
namespace EpollHttpServer
open CString

def defaultPort : Nat := 8080
def defaultWebRoot : Bytes := ascii "./www"
def defaultThreadCount : Int := 4
def maxEvents : Nat := 1024
def bufferSize : Nat := 4096
def connectionTimeout : Int := 60

def IntRange (z : Int) : Prop := -2^31 ≤ z ∧ z < 2^31
instance (z) : Decidable (IntRange z) := by unfold IntRange; infer_instance

structure ServerConfig where
  port : Nat
  webRoot : Bytes
  maxConnections : Int
  threadCount : Int
  portRange : port < 2^16
  maxRange : IntRange maxConnections
  threadRange : IntRange threadCount
  deriving DecidableEq, Repr

structure ClientConnection where
  inUse : Bool
  fd : Nat
  readBuf : Bytes
  readPos : Nat
  writeBuf : Bytes
  writePos : Nat
  writeLen : Nat
  lastActive : Int
  keepAlive : Bool
  deriving DecidableEq, Repr

-- As epoll_handler_accept fills it.
def acceptedConnection (fd : Nat) (now : Int) : ClientConnection :=
  { inUse := false
    fd := fd
    readBuf := List.replicate bufferSize 0
    readPos := 0
    writeBuf := List.replicate (bufferSize*4) 0
    writePos := 0
    writeLen := 0
    lastActive := now
    keepAlive := true }

namespace Main

def defaults : ServerConfig :=
  ⟨defaultPort,strncpy (List.replicate 256 0) defaultWebRoot 255,maxEvents,defaultThreadCount,
    by decide,by decide,by decide⟩

def isOption (arg : Bytes) (short long : String) : Bool :=
  strcmpEq arg (ascii short) || strcmpEq arg (ascii long)

-- The port passes through uint16_t before its range is tested.
def setPort (c : ServerConfig) (v : Bytes) : Except Int ServerConfig :=
  let port := ((atoi v) % 2^16).toNat
  if port ≤ 0 ∨ port > 65535 then .error 1
  else .ok {c with port := port, portRange := by dsimp only [port]; omega}

def setRoot (c : ServerConfig) (v : Bytes) : Except Int ServerConfig :=
  .ok {c with webRoot := strncpy c.webRoot v 255}

def setMax (c : ServerConfig) (v : Bytes) : Except Int ServerConfig :=
  let n := atoi v
  if n ≤ 0 ∨ n > maxEvents then .error 1
  else .ok {c with maxConnections := n, maxRange := atoiRange v}

def setThreads (c : ServerConfig) (v : Bytes) : Except Int ServerConfig :=
  let n := atoi v
  if n ≤ 0 ∨ n > 64 then .error 1
  else .ok {c with threadCount := n, threadRange := atoiRange v}

inductive Choice where
  | value (set : ServerConfig → Bytes → Except Int ServerConfig)
  | help
  | unknown

def choose (arg : Bytes) : Choice :=
  if isOption arg "-p" "--port" then .value setPort
  else if isOption arg "-r" "--root" then .value setRoot
  else if isOption arg "-m" "--max" then .value setMax
  else if isOption arg "-t" "--threads" then .value setThreads
  else if isOption arg "-h" "--help" then .help
  else .unknown

/- The loop over argv[1..]; an error is the exit status main returns. -/
def options (c : ServerConfig) : List Bytes → Except Int ServerConfig
  | [] => .ok c
  | arg::rest => match choose arg with
    | .help => .error 0
    | .unknown => .error 1
    | .value set => match rest with
      | [] => .error 1
      | v::rest => match set c v with
        | .error status => .error status
        | .ok c => options c rest

def run (argv : List Bytes) : Except Int ServerConfig := options defaults argv.tail

structure Accepted (c : ServerConfig) : Prop where
  port : 0 < c.port ∧ c.port ≤ 65535
  connections : 0 < c.maxConnections ∧ c.maxConnections ≤ maxEvents
  threads : 0 < c.threadCount ∧ c.threadCount ≤ 64

theorem defaultsAccepted : Accepted defaults := by
  constructor <;> decide

theorem setAccepted {arg set c v d} (chosen : choose arg = .value set) (valid : Accepted c)
    (ok : set c v = .ok d) : Accepted d := by
  unfold choose at chosen
  split at chosen
  · cases chosen
    simp only [setPort] at ok
    split at ok <;> try contradiction
    cases ok
    exact ⟨by dsimp only; omega,valid.connections,valid.threads⟩
  split at chosen
  · cases chosen
    cases ok
    exact ⟨valid.port,valid.connections,valid.threads⟩
  split at chosen
  · cases chosen
    simp only [setMax] at ok
    split at ok <;> try contradiction
    cases ok
    exact ⟨valid.port,by dsimp only; omega,valid.threads⟩
  split at chosen
  · cases chosen
    simp only [setThreads] at ok
    split at ok <;> try contradiction
    cases ok
    exact ⟨valid.port,valid.connections,by dsimp only; omega⟩
  split at chosen <;> contradiction

theorem optionsAccepted {args c d} (valid : Accepted c) (ok : options c args = .ok d) : Accepted d := by
  fun_induction options c args with
  | case1 c => cases ok; exact valid
  | case2 => contradiction
  | case3 => contradiction
  | case4 => contradiction
  | case5 => contradiction
  | case6 c arg set chosen v rest next stored ih => exact ih (setAccepted chosen valid stored) ok

theorem runAccepted {argv c} (ok : run argv = .ok c) : Accepted c :=
  optionsAccepted defaultsAccepted ok

end Main
end EpollHttpServer
