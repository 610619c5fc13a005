/-!
# Faults of the machine

What the machine that a run happens on may refuse, and how it says so.
-/

namespace DexIndex

inductive IoFault
  | notText
  | noSuchFile
  | permissionDenied
  | notDirectory
  | isDirectory
  | nameTooLong
  | connectionRefused
  | networkUnreachable
  | addressNotAvailable
  | invalidArgument
  | hostNotResolved
  | noHostName
  | other (text : String)
deriving DecidableEq

def IoFault.message : IoFault → String
  | notText => "stream did not contain valid UTF-8"
  | noSuchFile => "No such file or directory (os error 2)"
  | permissionDenied => "Permission denied (os error 13)"
  | notDirectory => "Not a directory (os error 20)"
  | isDirectory => "Is a directory (os error 21)"
  | nameTooLong => "File name too long (os error 36)"
  | connectionRefused => "Connection refused (os error 111)"
  | networkUnreachable => "Network is unreachable (os error 101)"
  | addressNotAvailable => "Cannot assign requested address (os error 99)"
  | invalidArgument => "Invalid argument (os error 22)"
  | hostNotResolved =>
    "failed to lookup address information: Temporary failure in name resolution"
  | noHostName => "failed to lookup address information: Name or service not known"
  | other text => text

end DexIndex
