import LanguageClient.Machine.Network
import LanguageClient.Machine.Run

/-!
# A machine in memory

What a client finds on the machine it runs on: directories, files, and programs to launch.

The modules of this directory are no part of the client. They stand for its surroundings, the
operating system, its network, and the programs that a server command can name, so that a client can
be rehearsed without a machine. Of these the shell is by far the largest, because a server command can
be a script. It has no here-documents, no `getopts` or `type`, no bit operations, and of `printf` and
`test` the common forms. Nothing else in the library imports these modules. What is proved about the
client is proved for all surroundings: processes by `Child`, dials by `DialWorld`, streams by the
events of a session.
-/

namespace LanguageClient.Machine

/-! ## Failures -/

def noSuchFile : IoError := ⟨.notFound, some "No such file or directory (os error 2)"⟩

def refusedProgram : IoError := ⟨.permissionDenied, some "Permission denied (os error 13)"⟩

def notDirectory : IoError := ⟨.other, some "Not a directory (os error 20)"⟩

def nameTooLong : IoError := ⟨.other, some "File name too long (os error 36)"⟩

/-! ## Files -/

def directories : List String := [
  "/", "/boot", "/dev", "/dev/pts", "/dev/shm", "/etc", "/etc/apt", "/etc/default", "/etc/init.d",
  "/etc/security", "/etc/skel", "/etc/ssl", "/home", "/media", "/mnt", "/opt", "/proc",
  "/proc/self", "/proc/sys", "/root", "/run", "/run/lock", "/srv", "/sys", "/sys/class",
  "/sys/kernel", "/tmp", "/usr", "/usr/bin", "/usr/games", "/usr/include", "/usr/lib", "/usr/lib64",
  "/usr/libexec", "/usr/local", "/usr/local/bin", "/usr/local/etc", "/usr/local/games",
  "/usr/local/include", "/usr/local/lib", "/usr/local/sbin", "/usr/local/share", "/usr/local/src",
  "/usr/sbin", "/usr/share", "/usr/share/doc", "/usr/share/man", "/usr/src", "/var", "/var/backups",
  "/var/cache", "/var/lib", "/var/local", "/var/log", "/var/mail", "/var/opt", "/var/spool",
  "/var/tmp"]

def plainFiles : List String := [
  "/dev/full", "/dev/null", "/dev/random", "/dev/stderr", "/dev/stdin", "/dev/stdout", "/dev/tty",
  "/dev/urandom", "/dev/zero", "/etc/bash.bashrc", "/etc/debian_version", "/etc/environment",
  "/etc/fstab", "/etc/group", "/etc/gshadow", "/etc/host.conf", "/etc/hostname", "/etc/hosts",
  "/etc/issue", "/etc/issue.net", "/etc/ld.so.cache", "/etc/ld.so.conf", "/etc/login.defs",
  "/etc/motd", "/etc/nsswitch.conf", "/etc/passwd", "/etc/profile", "/etc/resolv.conf",
  "/etc/shadow", "/etc/shells", "/proc/cpuinfo", "/proc/loadavg", "/proc/meminfo", "/proc/mounts",
  "/proc/stat", "/proc/uptime", "/proc/version", "/usr/lib/os-release"]

def links : List (String × String) := [
  ("/bin", "/usr/bin"), ("/lib", "/usr/lib"), ("/lib64", "/usr/lib64"), ("/sbin", "/usr/sbin"),
  ("/etc/os-release", "/usr/lib/os-release"), ("/var/lock", "/run/lock"), ("/var/run", "/run")]

def hostTree : FileTree := {
  directories
  files := plainFiles ++ Utility.names.map fun name => Utility.directory ++ "/" ++ name
  links }

def hostEnvironment : List (List Char × List Char) := [
  (octetsOf "HOME", octetsOf "/root"),
  (octetsOf "PATH", octetsOf "/usr/local/sbin:/usr/local/bin:/usr/sbin:/usr/bin:/sbin:/bin")]

/-! ## Launching -/

def startingDirectory (workingDir : Option String) : Except IoError String :=
  match workingDir with
  | none => .ok "/"
  | some path =>
    match hostTree.find "/" path with
    | .directory canonical => .ok canonical
    | .file _ | .blocked => .error notDirectory
    | .missing => .error noSuchFile
    | .tooLong => .error nameTooLong

def locateProgram (directory program : String) : Located :=
  Utility.locate hostTree directory (Utility.pathOf hostEnvironment) program

def Located.failure? : Located → Option IoError
  | .program _ => none
  | .missing => some noSuchFile
  | .notAllowed => some refusedProgram
  | .blocked => some notDirectory
  | .tooLong => some nameTooLong

def startingChannels (piped : Bool) : List (Nat × Channel) :=
  if piped then [(0, .input), (1, .output), (2, .messages)]
  else [(0, .nothing), (1, .nothing), (2, .messages)]

/-- Launches a command. The directory is entered before the program is looked for. -/
def launch (c : ServerCommand) : Except IoError Program :=
  if holdsZero c.program || c.args.any holdsZero || (c.workingDir.map holdsZero).getD false then
    .error zeroInText
  else
    match startingDirectory c.workingDir with
    | .error e => .error e
    | .ok directory =>
      match (locateProgram directory c.program).failure? with
      | some e => .error e
      | none =>
        let words := octetsOf c.program :: c.args.map octetsOf
        let program := Program.ofActs [.execute words hostEnvironment]
        .ok { program with
          tree := hostTree
          tasks := program.tasks.map fun t =>
            { t with directory, channels := startingChannels (c.stdio == .piped) } }

end LanguageClient.Machine
