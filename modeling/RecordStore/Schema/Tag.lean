import RecordStore.Error
import RecordStore.Text.FormData

/-!
Tags: options written as form data. Keys may repeat, and order matters.
-/
namespace RecordStore.Tag

def pairs (tag : String) : List (String × String) := FormData.decode tag

def invalid (key value : String) : ConfigIssue := .invalidOptionValue key value

/-- A flag; alone it is raised. -/
def flag (key value : String) : Except ConfigIssue Bool :=
  if value == "" || value == "true" then .ok true
  else if value == "false" then .ok false
  else .error (invalid key value)

end RecordStore.Tag
