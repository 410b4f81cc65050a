/-
SYSTEM ERRORS: why the operating system refuses an operation.

- `SystemError` is an error number; the ones the file tree gives have names.
- `IoFault` adds what goes wrong before the system is asked (a path with a NUL character) or after it answered (bytes
  that are no text).

Main statements: `map_eq_ok`, `mapError_eq_ok`, `bind_eq_ok`.
-/
import BranchRender.Text

namespace BranchRender

structure SystemError where
  code : Int
  deriving DecidableEq, Repr

namespace SystemError

def notFound : SystemError := ⟨2⟩
def busy : SystemError := ⟨16⟩
def alreadyExists : SystemError := ⟨17⟩
def notDirectory : SystemError := ⟨20⟩
def isDirectory : SystemError := ⟨21⟩
def invalid : SystemError := ⟨22⟩
def noSpace : SystemError := ⟨28⟩
def nameTooLong : SystemError := ⟨36⟩
def tooManyLinks : SystemError := ⟨40⟩

/-- the wording of the error numbers from 0 on; an empty text stands for a number without a meaning -/
def wordings : List String := [
  "Success", "Operation not permitted", "No such file or directory", "No such process", "Interrupted system call",
  "Input/output error", "No such device or address", "Argument list too long", "Exec format error",
  "Bad file descriptor", "No child processes", "Resource temporarily unavailable", "Cannot allocate memory",
  "Permission denied", "Bad address", "Block device required", "Device or resource busy", "File exists",
  "Invalid cross-device link", "No such device", "Not a directory", "Is a directory", "Invalid argument",
  "Too many open files in system", "Too many open files", "Inappropriate ioctl for device", "Text file busy",
  "File too large", "No space left on device", "Illegal seek", "Read-only file system", "Too many links",
  "Broken pipe", "Numerical argument out of domain", "Numerical result out of range", "Resource deadlock avoided",
  "File name too long", "No locks available", "Function not implemented", "Directory not empty",
  "Too many levels of symbolic links", "", "No message of desired type", "Identifier removed",
  "Channel number out of range", "Level 2 not synchronized", "Level 3 halted", "Level 3 reset",
  "Link number out of range", "Protocol driver not attached", "No CSI structure available", "Level 2 halted",
  "Invalid exchange", "Invalid request descriptor", "Exchange full", "No anode", "Invalid request code",
  "Invalid slot", "", "Bad font file format", "Device not a stream", "No data available", "Timer expired",
  "Out of streams resources", "Machine is not on the network", "Package not installed", "Object is remote",
  "Link has been severed", "Advertise error", "Srmount error", "Communication error on send", "Protocol error",
  "Multihop attempted", "RFS specific error", "Bad message", "Value too large for defined data type",
  "Name not unique on network", "File descriptor in bad state", "Remote address changed",
  "Can not access a needed shared library", "Accessing a corrupted shared library",
  ".lib section in a.out corrupted", "Attempting to link in too many shared libraries",
  "Cannot exec a shared library directly", "Invalid or incomplete multibyte or wide character",
  "Interrupted system call should be restarted", "Streams pipe error", "Too many users",
  "Socket operation on non-socket", "Destination address required", "Message too long",
  "Protocol wrong type for socket", "Protocol not available", "Protocol not supported", "Socket type not supported",
  "Operation not supported", "Protocol family not supported", "Address family not supported by protocol",
  "Address already in use", "Cannot assign requested address", "Network is down", "Network is unreachable",
  "Network dropped connection on reset", "Software caused connection abort", "Connection reset by peer",
  "No buffer space available", "Transport endpoint is already connected", "Transport endpoint is not connected",
  "Cannot send after transport endpoint shutdown", "Too many references: cannot splice", "Connection timed out",
  "Connection refused", "Host is down", "No route to host", "Operation already in progress",
  "Operation now in progress", "Stale file handle", "Structure needs cleaning", "Not a XENIX named type file",
  "No XENIX semaphores available", "Is a named type file", "Remote I/O error", "Disk quota exceeded",
  "No medium found", "Wrong medium type", "Operation canceled", "Required key not available", "Key has expired",
  "Key has been revoked", "Key was rejected by service", "Owner died", "State not recoverable",
  "Operation not possible due to RF-kill", "Memory page has hardware error"]

/-- an error in words, with its number -/
def message (e : SystemError) : Text :=
  let unknown := "Unknown error ".toList ++ Text.integer e.code
  let wording := match e.code with
    | .ofNat n => match wordings[n]? with
      | some w => if w = "" then unknown else w.toList
      | none => unknown
    | .negSucc _ => unknown
  wording ++ " (os error ".toList ++ Text.integer e.code ++ ")".toList

end SystemError

/-- why a file operation fails -/
inductive IoFault
  | system (e : SystemError)
  /-- the path holds a NUL character, which no file name can -/
  | nulInPath
  /-- the command or its directory holds a NUL character -/
  | nulInCommand
  /-- the bytes read are not UTF-8 -/
  | notText
  deriving DecidableEq, Repr

def IoFault.message : IoFault → Text
  | .system e => e.message
  | .nulInPath => "file name contained an unexpected NUL byte".toList
  | .nulInCommand => "nul byte found in provided data".toList
  | .notText => "stream did not contain valid UTF-8".toList

/-! ## Results -/

section

variable {α β ε ε' : Type} {x : Except ε α} {a : α} {b : β}

theorem map_eq_ok {f : α → β} : x.map f = .ok b ↔ ∃ a, x = .ok a ∧ f a = b := by
  cases x <;> simp [Except.map]

theorem mapError_eq_ok {f : ε → ε'} : x.mapError f = .ok a ↔ x = .ok a := by
  cases x with
  | error e => exact ⟨nofun, nofun⟩
  | ok b =>
    constructor
    · intro h
      exact congrArg Except.ok (Except.ok.inj h)
    · intro h
      exact congrArg Except.ok (Except.ok.inj h)

theorem bind_eq_ok {f : α → Except ε β} : x >>= f = .ok b ↔ ∃ a, x = .ok a ∧ f a = .ok b := by
  cases x <;> simp [bind, Except.bind]

theorem map_eq_error {f : α → β} {e : ε} : x.map f = .error e ↔ x = .error e := by
  cases x <;> simp [Except.map]

theorem mapError_eq_error {f : ε → ε'} {e' : ε'} : x.mapError f = .error e' ↔ ∃ e, x = .error e ∧ f e = e' := by
  cases x with
  | error e =>
    constructor
    · intro h
      exact ⟨e, rfl, Except.error.inj h⟩
    · rintro ⟨e, he, rfl⟩
      exact congrArg (Except.error ∘ f) (Except.error.inj he)
  | ok a => exact ⟨nofun, nofun⟩

theorem bind_eq_error {f : α → Except ε β} {e : ε} :
    x >>= f = .error e ↔ x = .error e ∨ ∃ a, x = .ok a ∧ f a = .error e := by
  cases x <;> simp [bind, Except.bind]

theorem toOption_eq_some : x.toOption = some a ↔ x = .ok a := by
  cases x <;> simp [Except.toOption]

theorem toOption_map (x : Except ε α) (f : α → β) : (x.map f).toOption = x.toOption.map f := by
  cases x <;> rfl

end

end BranchRender
