import ProjectF02.Transition.Loops
import ProjectF02.Transition.Runs
import ProjectF02.Store.LastWrites
import ProjectF02.Store.SortedEntries
import ProjectF02.Store.Overlays
import ProjectF02.Sorting.Routine
import ProjectF02.Sorting.Comparison
import ProjectF02.Sorting.Digits
import ProjectF02.Calendar.Years
import ProjectF02.Calendar.Weeks
import ProjectF02.Swift.Value
import ProjectF02.Swift.Decimal
import ProjectF02.Swift.DateFormatter
import ProjectF02.Swift.Scanner
import ProjectF02.Firebase.Node
import ProjectF02.Firebase.Path
import ProjectF02.Firebase.Snapshot
import ProjectF02.Firebase.Query
import ProjectF02.Firebase.Auth
import ProjectF02.Models.Message
import ProjectF02.Models.Chat
import ProjectF02.Models.User
import ProjectF02.Models.Post
import ProjectF02.Models.StoredPost
import ProjectF02.Models.Reencoding
import ProjectF02.Extension.Resize
import ProjectF02.Extension.HexColor
import ProjectF02.Chat.ChatViewController
import ProjectF02.Chat.Conversation
import ProjectF02.Chat.Observer
import ProjectF02.Chat.Snapshots
import ProjectF02.Chat.Draft
import ProjectF02.Chat.ChatHomeViewController
import ProjectF02.Chat.ChatList
import ProjectF02.Chat.Opening
import ProjectF02.Screens.Dates
import ProjectF02.Chat.Rows
import ProjectF02.Chat.Registrations
import ProjectF02.Chat.Destination
import ProjectF02.Posts.Likes
import ProjectF02.Posts.UpStatusViewController
import ProjectF02.Posts.Effects
import ProjectF02.Posts.Records
import ProjectF02.Posts.Images
import ProjectF02.Posts.PostTableViewCell
import ProjectF02.Posts.MyProfileViewController
import ProjectF02.Posts.ProfileTable
import ProjectF02.Posts.Loading
import ProjectF02.Register.RegisterViewController
import ProjectF02.Register.Form
import ProjectF02.Register.SignUp
import ProjectF02.Login.ViewController
import ProjectF02.Login.Effects
import ProjectF02.Login.SignIn
import ProjectF02.Login.Google
import ProjectF02.Login.Overlay
import ProjectF02.Screens.StoredData
import ProjectF02.Firebase.ImmutableTree
import ProjectF02.Firebase.CompoundWrite
import ProjectF02.Firebase.WriteTree
import ProjectF02.Firebase.Repo
import ProjectF02.Firebase.EventCache
import ProjectF02.Firebase.PushId
import ProjectF02.Register.CountryList
import ProjectF02.Screens.Session
import ProjectF02.Kingfisher.ImageView
import ProjectF02.SortedDictionary.LLRBNode
import ProjectF02.SortedDictionary.LLRBRemoval
import ProjectF02.SortedDictionary.ArraySortedDictionary
import ProjectF02.SortedDictionary.TreeSortedDictionary
import ProjectF02.SortedDictionary.TreeEnumerator
import ProjectF02.SortedDictionary.ImmutableSortedDictionary
