/-!
What the file system answers when it refuses.
-/
namespace TagFormula

inductive FileFault where
  | notFound
  | alreadyThere
  | notADirectory
  | isADirectory
  | notText
  deriving DecidableEq, Repr

namespace FileFault

def message : FileFault → String
  | notFound => "No such file or directory (os error 2)"
  | alreadyThere => "File exists (os error 17)"
  | notADirectory => "Not a directory (os error 20)"
  | isADirectory => "Is a directory (os error 21)"
  | notText => "stream did not contain valid UTF-8"

end FileFault

end TagFormula
