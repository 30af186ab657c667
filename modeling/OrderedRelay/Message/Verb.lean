import OrderedRelay.Message.Header

/-!
# Verbs

What a message asks of its consumers. Five verbs address one slot instance; every other word is the
name of an emitted signal.
-/

namespace OrderedRelay

inductive Verb where
  | call
  | request
  | requestNoWait
  | reply
  | replyNoWait
  | emit (signal : String)
deriving DecidableEq, Repr

namespace Verb

def ofText (word : String) : Verb :=
  if word = "__call__" then call
  else if word = "__request__" then request
  else if word = "__requestNoWait__" then requestNoWait
  else if word = "__reply__" then reply
  else if word = "__replyNoWait__" then replyNoWait
  else emit word

def text : Verb → String
  | call => "__call__"
  | request => "__request__"
  | requestNoWait => "__requestNoWait__"
  | reply => "__reply__"
  | replyNoWait => "__replyNoWait__"
  | emit signal => signal

/-- Whether the verb addresses exactly one slot instance. -/
def isPointToPoint : Verb → Bool
  | emit _ => false
  | _ => true

end Verb

def Header.verb? (h : Header) : Option Verb := (h.text? verbField).map Verb.ofText

end OrderedRelay
