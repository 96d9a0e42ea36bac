/-!
# Input and output failures

The causes for which reading, writing, naming or connecting can fail, and the text of each. Causes
that the operating system reports carry its number in the text.
-/

namespace FileMesh

/-- Why an operation on a file, a stream or an address failed. A range can run past the end of its
source, a stream can end inside the part of a payload that is kept or inside the excess, and a write
can take no byte. -/
inductive IoError where
  | notFound
  | alreadyExists
  | notDirectory
  | isDirectory
  | badOffset
  | sizeTooLarge
  | fileTooLarge
  | outOfMemory
  | diskFailure
  | nulInName
  | longName
  | shortRead
  | endInPayload
  | endInExcess
  | connectionReset
  | brokenPipe
  | writeZero
  | notUtf8
  | addressNotAvailable
  | networkUnreachable
  | connectionRefused
  | badSocketAddress
  | badPort
  | unknownHost
deriving DecidableEq, Repr, Inhabited

namespace IoError

/-- The system's text for an error number. -/
def system (text : String) (number : Nat) : String :=
  text ++ " (os error " ++ toString number ++ ")"

def message : IoError → String
  | notFound => system "No such file or directory" 2
  | alreadyExists => system "File exists" 17
  | notDirectory => system "Not a directory" 20
  | isDirectory => system "Is a directory" 21
  | diskFailure => system "Input/output error" 5
  | outOfMemory => system "Cannot allocate memory" 12
  | badOffset => system "Invalid argument" 22
  | fileTooLarge => system "File too large" 27
  | longName => system "File name too long" 36
  | addressNotAvailable => system "Cannot assign requested address" 99
  | networkUnreachable => system "Network is unreachable" 101
  | connectionRefused => system "Connection refused" 111
  | sizeTooLarge => "number too large to fit in target type"
  | nulInName => "file name contained an unexpected NUL byte"
  | shortRead => "failed to fill whole buffer"
  | endInPayload => "early eof"
  | endInExcess => "unexpected end of file"
  | connectionReset => "connection reset"
  | brokenPipe => "broken pipe"
  | writeZero => "write zero"
  | notUtf8 => "stream did not contain valid UTF-8"
  | badSocketAddress => "invalid socket address"
  | badPort => "invalid port value"
  | unknownHost => "failed to lookup address information: Name or service not known"

end IoError

end FileMesh
