import Sylar.Lib.Layout
import Sylar.Log.FileAppenderStatements
import Sylar.Log.LogIniter

set_option autoImplicit false

namespace Sylar.Log.LogLines

open FileAppenderRace (Request success text)
open FileAppenderStatements
open Lib (Fine Layout run)
open Lib.Sections (fineStep settled)

-- What an item prints whatever the event is.
def literal : FormatItem → Option (List Char)
  | .cLine => some "\n".toList
  | .tab => some "\t".toList
  | .string text => some text.toList
  | _ => none

section Lines

variable (strftime : String → Nat → String)

section File

variable (base : LogAppender LogFormatter) (programs : Nat → List Call) (formatter : LogFormatter)

end File

-- What the default pattern asks of an event.
structure Plain (request : Request) : Prop where
  fits : FormatItem.dateFits strftime "%Y-%m-%d %H:%M:%S" request.event.time = true
  date : '\t' ∉ (strftime "%Y-%m-%d %H:%M:%S" request.event.time).toList
  name : ']' ∉ request.logger.name.toList
  file : ':' ∉ request.event.file.toList
  content : '\n' ∉ request.event.content.toList

end Lines

def noon (_ : String) (_ : Nat) : String := "2024-05-20 12:00:00"

end Sylar.Log.LogLines
