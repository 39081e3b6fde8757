import StackMachine.Storage.Folder
import StackMachine.Text.Blank

/-!
# Messages for the user

The messages of the command line in English and Chinese. A message has at most one place for an
argument.
-/

namespace StackMachine

/-- The languages of messages. -/
inductive Language
  /-- English. -/
  | english
  /-- Chinese. -/
  | chinese
  deriving DecidableEq, Repr, Inhabited

/-- The messages. -/
inductive Message
  /-- How the command is called. -/
  | usage
  /-- The file does not exist. -/
  | fileNotFound
  /-- An internal error. -/
  | internalError
  /-- A fault of control flow. -/
  | runtimeError
  /-- A fault of operand kinds. -/
  | typeError
  /-- A module cannot be imported. -/
  | importError
  /-- The text is malformed. -/
  | syntaxError
  /-- A name is not known. -/
  | undefinedIdentifier
  /-- The word for truth. -/
  | yes
  /-- The word for falsehood. -/
  | no
  deriving DecidableEq, Repr

namespace Message

/-- Where the argument of a message goes. -/
def placeholder : List Char := ['\x7b', '0', '\x7d']

/-- The text of a message before its placeholder, and whether it has one. -/
def template : Language → Message → String × Bool
  | .english, usage => ("Usage: steve <filename>", false)
  | .english, fileNotFound => ("Error: File not found", false)
  | .english, internalError => ("Internal Error: ", true)
  | .english, runtimeError => ("Runtime Error: ", true)
  | .english, typeError => ("Type Error: ", true)
  | .english, importError => ("Import Error: ", true)
  | .english, syntaxError => ("Syntax Error: ", true)
  | .english, undefinedIdentifier => ("Undefined identifier: ", true)
  | .english, yes => ("true", false)
  | .english, no => ("false", false)
  | .chinese, usage => ("用法: steve <文件名>", false)
  | .chinese, fileNotFound => ("错误: 找不到文件", false)
  | .chinese, internalError => ("内部错误: ", true)
  | .chinese, runtimeError => ("运行时错误: ", true)
  | .chinese, typeError => ("类型错误: ", true)
  | .chinese, importError => ("导入错误: ", true)
  | .chinese, syntaxError => ("语法错误: ", true)
  | .chinese, undefinedIdentifier => ("未定义的标识符: ", true)
  | .chinese, yes => ("真", false)
  | .chinese, no => ("假", false)

/-- A message with its argument. An empty argument leaves the placeholder as it is. -/
def localize (language : Language) (message : Message) (argument : String) : String :=
  match template language message with
  | (text, false) => text
  | (text, true) =>
    text ++ (if argument.isEmpty then String.ofList placeholder else argument)

end Message

/-- The file that names the language of messages. -/
def Language.fileName : String := "language.txt"

/-- The language that a folder asks for: Chinese if its language file says so. -/
def Language.detect (folder : Folder) : Language :=
  match folder.readText fileName with
  | .ok text => if Text.occurs "Chinese".toList text.toList then .chinese else .english
  | .error _ => .english

end StackMachine
